import ResourceAccessors.Log
import ResourceAccessors.Proofs.Text.Template

/-! The delivery of messages. A message is sent as a template with arguments for its slots, or as a
text without any. Either way what is logged is its text: what is put in is not looked into, so percent
signs in it stay. -/
namespace ResourceAccessors.Message
set_option autoImplicit false

/-- The template that a message is sent with. A message without arguments is its own template. -/
def template : Message → String
  | starting _ => "开始转换 '%s' 目录中的 `.resx` 文件："
  | fileConverted _ => "\t* '%s' 文件转换成功"
  | fileFailed _ => "\t* '%s' 文件转换失败"
  | fileUnchanged _ => "\t* '%s' 文件没有变化"
  | totals _ _ _ => "文件总数：%d。已转换：%d。失败：%d。"
  | nothingFound _ => "在 '%s' 目录中没有找到 resx 文件。"
  | m => m.text

/-- What is put into the template of a message. -/
def arguments : Message → List Text.Argument
  | starting p | fileConverted p | fileFailed p | fileUnchanged p | nothingFound p =>
    [.text p.toString]
  | totals processed converted failed => [.integer processed, .integer converted, .integer failed]
  | _ => []

theorem record_of_parts {m : Message} (parts : List Text.Part) (hplain : ∀ p ∈ parts, p.Plain)
    (hslot : parts.filterMap Text.Part.argument? ≠ [])
    (htemplate : m.template = String.ofList (parts.flatMap Text.Part.stated))
    (harguments : m.arguments = parts.filterMap Text.Part.argument?)
    (htext : m.text = String.ofList (parts.flatMap Text.Part.spoken)) :
    m.tone.record (.text m.template) m.arguments = .ok m.logged := by
  unfold Tone.record logged
  rw [Text.Argument.shown, htemplate, harguments, Text.fill_parts hplain hslot, htext]
  rfl

/-- A message that names a path, whatever signs that holds. -/
theorem record_named {m : Message} {p : Path} (before behind : String)
    (hbefore : '%' ∉ before.toList) (hbehind : '%' ∉ behind.toList)
    (htemplate : m.template = String.ofList (before.toList ++ ['%', 's'] ++ behind.toList))
    (harguments : m.arguments = [.text p.toString])
    (htext : m.text = before ++ p.toString ++ behind) :
    m.tone.record (.text m.template) m.arguments = .ok m.logged := by
  refine record_of_parts [.words before, .shown p.toString, .words behind] ?_ ?_ ?_ harguments ?_
  · simp [Text.Part.Plain, hbefore, hbehind]
  · exact List.cons_ne_nil _ _
  · rw [htemplate]
    simp [Text.Part.stated]
  · rw [htext]
    simp [Text.Part.spoken, String.ofList_append, String.append_assoc]

/-- A message that gives three numbers. -/
theorem record_counted {m : Message} {i j k : Nat} (a b c d : String)
    (hwords : ∀ s ∈ [a, b, c, d], '%' ∉ s.toList)
    (htemplate : m.template = String.ofList (a.toList ++ ['%', 'd'] ++ b.toList ++ ['%', 'd'] ++
      c.toList ++ ['%', 'd'] ++ d.toList))
    (harguments : m.arguments = [.integer i, .integer j, .integer k])
    (htext : m.text = a ++ toString i ++ b ++ toString j ++ c ++ toString k ++ d) :
    m.tone.record (.text m.template) m.arguments = .ok m.logged := by
  refine record_of_parts
    [.words a, .counted i, .words b, .counted j, .words c, .counted k, .words d] ?_ ?_ ?_
    harguments ?_
  · simpa [Text.Part.Plain] using hwords
  · exact List.cons_ne_nil _ _
  · rw [htemplate]
    simp [Text.Part.stated]
  · rw [htext]
    simp only [List.flatMap_cons, List.flatMap_nil, Text.Part.spoken, List.append_nil,
      String.ofList_append, String.ofList_toList, String.append_assoc]

/-- A message is logged as its template filled with its arguments. -/
theorem record_template (m : Message) :
    m.tone.record (.text m.template) m.arguments = .ok m.logged := by
  cases m with
  | blank => rfl
  | rootMissing root => rfl
  | problem text => rfl
  | allConverted => rfl
  | someFailed => rfl
  | starting root =>
    exact record_named "开始转换 '" "' 目录中的 `.resx` 文件：" (by decide) (by decide) rfl rfl rfl
  | fileConverted relative =>
    exact record_named "\t* '" "' 文件转换成功" (by decide) (by decide) rfl rfl rfl
  | fileFailed relative =>
    exact record_named "\t* '" "' 文件转换失败" (by decide) (by decide) rfl rfl rfl
  | fileUnchanged relative =>
    exact record_named "\t* '" "' 文件没有变化" (by decide) (by decide) rfl rfl rfl
  | nothingFound root =>
    exact record_named "在 '" "' 目录中没有找到 resx 文件。" (by decide) (by decide) rfl rfl rfl
  | totals processed converted failed =>
    exact record_counted "文件总数：" "。已转换：" "。失败：" "。" (by decide) rfl rfl rfl

end ResourceAccessors.Message
