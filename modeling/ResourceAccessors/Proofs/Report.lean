import ResourceAccessors.Proofs.Path
import ResourceAccessors.Proofs.Run.Reported
import ResourceAccessors.Proofs.TextFile.Compared

/-! Reading a report. A reader takes the characters one by one and knows of commas, line ends and
quotes; a character that no report has at its place is refused. What is read in a report is the
table that was written, so that two reports are the same only where they tell the same. -/
namespace ResourceAccessors.Report
set_option autoImplicit false

/-! ## A reader -/

/-- Where a reader stands: in front of a field, in a field without quotes, between quotes, behind a
quote that closes the field unless it is doubled, or behind the first character of a line end. -/
inductive Place where
  | opening
  | plain
  | quoted
  | quote
  | lineEnd
  deriving DecidableEq

/-- What a reader has in hand: the characters of a field, the fields in front of it in its record,
and the records in front of that. -/
structure Reader where
  place : Place
  field : List Char
  record : List String
  rows : List (List String)
  deriving DecidableEq

namespace Reader

def start : Reader := ⟨.opening, [], [], []⟩

/-- Takes a character for one of the field. -/
def keep (r : Reader) (place : Place) (c : Char) : Reader :=
  { r with place := place, field := r.field ++ [c] }

def endField (r : Reader) : Reader :=
  ⟨.opening, [], r.record ++ [String.ofList r.field], r.rows⟩

def endRecord (r : Reader) : Reader :=
  ⟨.opening, [], [], r.rows ++ [r.record ++ [String.ofList r.field]]⟩

/-- Takes a character that may stand behind a field, and any other one as `otherwise` says. -/
def leave (r : Reader) (c : Char) (otherwise : Option Reader) : Option Reader :=
  if c = ',' then some r.endField
  else if c = '\r' then some { r with place := .lineEnd }
  else otherwise

/-- Takes a character outside of quotes. -/
def outside (r : Reader) (c : Char) : Option Reader :=
  r.leave c (if c = '"' ∨ c = '\n' then none else some (r.keep .plain c))

def step (r : Reader) (c : Char) : Option Reader :=
  match r.place with
  | .opening => if c = '"' then some { r with place := .quoted } else r.outside c
  | .plain => r.outside c
  | .quoted => some (if c = '"' then { r with place := .quote } else r.keep .quoted c)
  | .quote => if c = '"' then some (r.keep .quoted c) else r.leave c none
  | .lineEnd => if c = '\n' then some r.endRecord else none

def run (r : Reader) (cs : List Char) : Option Reader :=
  cs.foldlM step r

/-- The records, if a reader has come to the end of one. -/
def done? (r : Reader) : Option (List (List String)) :=
  if r.place = .opening ∧ r.record = [] then some r.rows else none

end Reader

def read? (text : String) : Option (List (List String)) := do
  let r ← Reader.start.run text.toList
  r.done?

/-! ## Fields and records -/

namespace Reader

variable {place : Place} {field cs : List Char} {record : List String} {rows : List (List String)}

theorem run_nil (r : Reader) : r.run [] = some r := rfl

theorem run_cons (r : Reader) (c : Char) (cs : List Char) :
    r.run (c :: cs) = (r.step c).bind (run · cs) := rfl

theorem run_append (r : Reader) (cs ds : List Char) :
    r.run (cs ++ ds) = (r.run cs).bind (run · ds) :=
  List.foldlM_append

/-- Between quotes every character is read as it is. -/
theorem run_doubleQuotes (cs : List Char) :
    run ⟨.quoted, field, record, rows⟩ (doubleQuotes cs) =
      some ⟨.quoted, field ++ cs, record, rows⟩ := by
  induction cs generalizing field with
  | nil => simp [doubleQuotes, run_nil]
  | cons c cs ih =>
    have hhead : run ⟨.quoted, field, record, rows⟩ (if c = '"' then ['"', '"'] else [c]) =
        some ⟨.quoted, field ++ [c], record, rows⟩ := by
      by_cases hc : c = '"'
      · subst hc
        simp [run_cons, run_nil, step, keep]
      · simp [hc, run_cons, run_nil, step, keep]
    have htail : doubleQuotes (c :: cs) =
        (if c = '"' then ['"', '"'] else [c]) ++ doubleQuotes cs := List.flatMap_cons
    rw [htail, run_append, hhead, Option.bind_some, ih, List.append_assoc, List.singleton_append]

/-- A field that needs no quotes is read as it is. -/
theorem run_plain (hplace : place = .opening ∨ place = .plain) (hcs : needsQuotes cs = false) :
    ∃ reached, (reached = .opening ∨ reached = .plain) ∧
      run ⟨place, field, record, rows⟩ cs = some ⟨reached, field ++ cs, record, rows⟩ := by
  induction cs generalizing place field with
  | nil => exact ⟨place, hplace, by rw [run_nil, List.append_nil]⟩
  | cons c cs ih =>
    rw [needsQuotes, List.any_cons, Bool.or_eq_false_iff] at hcs
    obtain ⟨hc, hrest⟩ := hcs
    have hstep : step ⟨place, field, record, rows⟩ c =
        some ⟨.plain, field ++ [c], record, rows⟩ := by
      rcases hplace with rfl | rfl
      all_goals simp_all [step, outside, leave, keep]
    obtain ⟨reached, hreached, hrun⟩ := ih (.inr rfl) hrest
    refine ⟨reached, hreached, ?_⟩
    rw [run_cons, hstep, Option.bind_some, hrun, List.append_assoc, List.singleton_append]

/-- Behind a written field a reader has that field in hand, and stands where it may end. -/
theorem run_fieldChars (cs : List Char) (record : List String) (rows : List (List String)) :
    ∃ reached, (reached = .opening ∨ reached = .plain ∨ reached = .quote) ∧
      run ⟨.opening, [], record, rows⟩ (fieldChars cs) = some ⟨reached, cs, record, rows⟩ := by
  cases hquotes : needsQuotes cs with
  | false =>
    obtain ⟨reached, hreached, hrun⟩ := @run_plain .opening [] cs record rows (.inl rfl) hquotes
    refine ⟨reached, hreached.imp_right .inl, ?_⟩
    simpa [fieldChars, hquotes] using hrun
  | true =>
    refine ⟨.quote, .inr (.inr rfl), ?_⟩
    have hopen : step ⟨.opening, [], record, rows⟩ '"' = some ⟨.quoted, [], record, rows⟩ := rfl
    have hclose : run ⟨.quoted, cs, record, rows⟩ ['"'] = some ⟨.quote, cs, record, rows⟩ := rfl
    rw [fieldChars, if_pos hquotes, List.cons_append, run_cons, hopen, Option.bind_some,
      run_append, run_doubleQuotes, Option.bind_some, List.nil_append, hclose]

theorem run_fieldChars_comma (cs : List Char) (record : List String) (rows : List (List String)) :
    run ⟨.opening, [], record, rows⟩ (fieldChars cs ++ [',']) =
      some ⟨.opening, [], record ++ [String.ofList cs], rows⟩ := by
  obtain ⟨reached, hreached, hrun⟩ := run_fieldChars cs record rows
  rw [run_append, hrun, Option.bind_some]
  rcases hreached with rfl | rfl | rfl <;> rfl

theorem run_fieldChars_lineEnd (cs : List Char) (record : List String)
    (rows : List (List String)) :
    run ⟨.opening, [], record, rows⟩ (fieldChars cs ++ ['\r', '\n']) =
      some ⟨.opening, [], [], rows ++ [record ++ [String.ofList cs]]⟩ := by
  obtain ⟨reached, hreached, hrun⟩ := run_fieldChars cs record rows
  rw [run_append, hrun, Option.bind_some]
  rcases hreached with rfl | rfl | rfl <;> rfl

theorem run_recordChars {fields : List String} (hne : fields ≠ []) (record : List String)
    (rows : List (List String)) :
    run ⟨.opening, [], record, rows⟩ (recordChars fields) =
      some ⟨.opening, [], [], rows ++ [record ++ fields]⟩ := by
  induction fields generalizing record with
  | nil => exact absurd rfl hne
  | cons f rest ih =>
    cases rest with
    | nil =>
      have hlast := run_fieldChars_lineEnd f.toList record rows
      rw [String.ofList_toList] at hlast
      simpa [recordChars] using hlast
    | cons g rest =>
      have hfirst := run_fieldChars_comma f.toList record rows
      rw [String.ofList_toList] at hfirst
      have hchars : recordChars (f :: g :: rest) =
          (fieldChars f.toList ++ [',']) ++ recordChars (g :: rest) := by
        simp [recordChars]
      rw [hchars, run_append, hfirst, Option.bind_some, ih (List.cons_ne_nil _ _),
        List.append_assoc, List.singleton_append]

theorem run_records {records : List (List String)} (hne : ∀ fields ∈ records, fields ≠ [])
    (rows : List (List String)) :
    run ⟨.opening, [], [], rows⟩ (records.flatMap recordChars) =
      some ⟨.opening, [], [], rows ++ records⟩ := by
  induction records generalizing rows with
  | nil => rw [List.flatMap_nil, run_nil, List.append_nil]
  | cons fields records ih =>
    have hfirst := run_recordChars (hne fields (List.mem_cons_self ..)) [] rows
    have hrest : ∀ f ∈ records, f ≠ [] := fun f hf => hne f (List.mem_cons_of_mem _ hf)
    rw [List.flatMap_cons, run_append, hfirst, Option.bind_some, ih hrest, List.append_assoc,
      List.nil_append, List.singleton_append]

end Reader

/-! ## Reports -/

theorem length_of_mem_table {os : List Outcome} {row : List String} (h : row ∈ table os) :
    row.length = 5 := by
  rcases List.mem_cons.1 h with rfl | hrow
  · rfl
  · obtain ⟨o, -, rfl⟩ := List.mem_map.1 hrow
    rfl

theorem read?_text (os : List Outcome) : read? (text os) = some (table os) := by
  have hne : ∀ row ∈ table os, row ≠ [] := by
    rintro row hrow rfl
    have hlength := length_of_mem_table hrow
    simp at hlength
  rw [read?, text, String.toList_ofList, Reader.start, Reader.run_records hne]
  rfl

/-- Reports are the same only where they hold the same fields. -/
theorem text_inj {os others : List Outcome} :
    text os = text others ↔ os.map fields = others.map fields := by
  constructor
  · intro h
    have hread := congrArg read? h
    rw [read?_text, read?_text, Option.some.injEq] at hread
    exact List.tail_eq_of_cons_eq hread
  · intro h
    rw [text, text, table, table, h]

/-- The paths of an outcome are read from texts. -/
structure Named (o : Outcome) : Prop where
  source : o.source.Spelled
  relative : o.relative.Spelled
  output : ∀ q, o.output = some q → q.Spelled

/-- What a report tells of a file. A message that is empty is told like none. -/
def told (o : Outcome) : Path × Path × Option Path × String × String :=
  (o.source, o.relative, o.output, o.status.label, o.message.getD "")

/-- No path has an empty text, so an output is told apart from none. -/
theorem output_eq_of_text {a b : Option Path} (ha : ∀ q, a = some q → q.Spelled)
    (hb : ∀ q, b = some q → q.Spelled)
    (h : (a.map Path.toString).getD "" = (b.map Path.toString).getD "") : a = b := by
  cases a with
  | none =>
    cases b with
    | none => rfl
    | some q => exact absurd h.symm (hb q rfl).toString_ne_empty
  | some q =>
    cases b with
    | none => exact absurd h (ha q rfl).toString_ne_empty
    | some r => rw [(ha q rfl).toString_inj (hb r rfl) h]

theorem told_eq_iff {a b : Outcome} (ha : Named a) (hb : Named b) :
    told a = told b ↔ fields a = fields b := by
  constructor
  · intro h
    simp only [told, Prod.mk.injEq] at h
    obtain ⟨hsource, hrelative, houtput, hstatus, hmessage⟩ := h
    rw [fields, fields, hsource, hrelative, houtput, hstatus, hmessage]
  · intro h
    simp only [fields, List.cons.injEq, and_true] at h
    obtain ⟨hsource, hrelative, houtput, hstatus, hmessage⟩ := h
    rw [told, told, ha.source.toString_inj hb.source hsource,
      ha.relative.toString_inj hb.relative hrelative,
      output_eq_of_text ha.output hb.output houtput, hstatus, hmessage]

theorem map_told_eq_iff {os others : List Outcome} (hos : ∀ o ∈ os, Named o)
    (hothers : ∀ o ∈ others, Named o) :
    os.map told = others.map told ↔ os.map fields = others.map fields := by
  induction os generalizing others with
  | nil => cases others <;> simp
  | cons o os ih =>
    cases others with
    | nil => simp
    | cons p others =>
      have hhead := told_eq_iff (hos o (List.mem_cons_self ..)) (hothers p (List.mem_cons_self ..))
      have htail := ih (fun q hq => hos q (List.mem_cons_of_mem _ hq))
        (fun q hq => hothers q (List.mem_cons_of_mem _ hq))
      rw [List.map_cons, List.map_cons, List.map_cons, List.map_cons, List.cons.injEq,
        List.cons.injEq, hhead, htail]

/-! ## Files -/

theorem bytesOf_text (s : String) :
    TextFile.bytesOf (.text s) "utf-8" = .ok (Utf8.encode s.toList) := by
  rw [TextFile.bytesOf_text_eq_ok_iff
    (TextFile.encodingOf_unmarkedNames _ ("utf-8", .utf8) (by decide))]
  rfl

section
variable {fs after gs later : FileSystem} {p q : Path} {os others : List Outcome}

theorem read_of_write (htree : fs.IsTree) (hwrite : write fs p os = (.ok (), after)) :
    after.read p = .ok (Utf8.encode (text os).toList) := by
  obtain ⟨loc, hlocate, hfile⟩ := file_of_write htree hwrite
  exact FileSystem.read_of_locate hlocate hfile

/-- Written reports are the same files only where they hold the same fields. -/
theorem read_eq_iff (htree : fs.IsTree) (hwrite : write fs p os = (.ok (), after))
    (hgs : gs.IsTree) (hlater : write gs q others = (.ok (), later)) :
    later.read q = after.read p ↔ others.map fields = os.map fields := by
  have hread := read_of_write hgs hlater
  rw [read_of_write htree hwrite, ← text_inj]
  constructor
  · intro h
    have hthese := TextFile.read_of_bytesOf (bytesOf_text (text others)) hread
    have hthose := TextFile.read_of_bytesOf (bytesOf_text (text os)) h
    rw [hthese, Except.ok.injEq] at hthose
    exact hthose
  · intro h
    rw [hread, h]

/-- A report that was written is read back as its table, with one record of five fields for every
file below the header. Two reports are the same only if they tell the same of the same files. -/
theorem write_reads_back (htree : fs.IsTree) (hwrite : write fs p os = (.ok (), after)) :
    (∃ content, TextFile.read after p "utf-8" = .ok content ∧
      read? content = some (header :: os.map fields)) ∧
    (∀ row ∈ header :: os.map fields, row.length = 5) ∧
    ∀ {gs later : FileSystem} {q : Path} {others : List Outcome}, gs.IsTree →
      write gs q others = (.ok (), later) →
      (later.read q = after.read p ↔ others.map fields = os.map fields) ∧
        ((∀ o ∈ os, Named o) → (∀ o ∈ others, Named o) →
          (later.read q = after.read p ↔ others.map told = os.map told)) := by
  have hbytes := read_of_write htree hwrite
  refine ⟨⟨text os, TextFile.read_of_bytesOf (bytesOf_text _) hbytes, read?_text os⟩,
    fun row => length_of_mem_table, ?_⟩
  intro gs later q others hgs hlater
  have hsame := read_eq_iff htree hwrite hgs hlater
  refine ⟨hsame, fun hos hothers => ?_⟩
  rw [hsame, map_told_eq_iff hothers hos]

end

/-- A report is to be written in a directory that is still missing. -/
def reportPath : Path := .ofString "/out/report.csv"

/-- Commas, quotes and line ends in each of the fields, and a message that is empty. -/
def awkward : List Outcome := [
  ⟨.ofString "/a,\"b\".resx", .ofString "a,\"b\".resx", .failed, none, some "\r\n,\"\",\x00"⟩,
  ⟨.ofString "/ c\r.resx", .ofString " c\r.resx", .converted, some (.ofString "/c\n.cs"), some ""⟩]

theorem awkward_named : ∀ o ∈ awkward, Named o := by
  have hspelled : ∀ s, (Path.ofString s).Spelled := fun s => ⟨s, rfl⟩
  intro o ho
  simp only [awkward, List.mem_cons, List.not_mem_nil, or_false] at ho
  rcases ho with rfl | rfl
  · exact ⟨hspelled _, hspelled _, by simp⟩
  · exact ⟨hspelled _, hspelled _, by simp [hspelled]⟩

/-- The records are those of the outcomes, and a report with one file less is another file. -/
theorem write_reads_back_awkward :
    (∃ content,
      TextFile.read (write (.empty .usual) reportPath awkward).2 reportPath "utf-8" = .ok content ∧
      read? content = some [header,
        ["/a,\"b\".resx", "a,\"b\".resx", "", "failed", "\r\n,\"\",\x00"],
        ["/ c\r.resx", " c\r.resx", "/c\n.cs", "converted", ""]]) ∧
      (write (.empty .usual) reportPath (awkward.take 1)).2.read reportPath ≠
        (write (.empty .usual) reportPath awkward).2.read reportPath := by
  have htree := FileSystem.isTree_empty .usual
  have hwrite : ∀ os, write (.empty .usual) reportPath os =
      (.ok (), (write (.empty .usual) reportPath os).2) := fun _ => rfl
  obtain ⟨hread, -, hother⟩ := write_reads_back htree (hwrite awkward)
  have hsame := (hother htree (hwrite (awkward.take 1))).2 awkward_named
    fun o ho => awkward_named o (List.mem_of_mem_take ho)
  refine ⟨hread, fun h => ?_⟩
  have hlength := congrArg List.length (hsame.1 h)
  simp [awkward] at hlength

end ResourceAccessors.Report
