import ResourceAccessors.Encoding.Basic

/-! The names of codecs. A name is read without regard to case and to the kind and number of the
characters that separate its parts. A codec has one proper name and any number of other names; only
in the latter a dot may stand for an underscore.

Of the codecs that are known by name, some turn text into text or bytes into bytes and are no
encodings of files, and some are encodings whose tables are not part of this library. -/
namespace ResourceAccessors
set_option autoImplicit false

inductive Codec where
  | text (encoding : Encoding)
  | transform
  | foreign
  deriving DecidableEq

namespace Codec

/-! ## Names -/

/-- Lower-cases ASCII letters, keeps digits and dots, and writes one underscore for every other
stretch between two of these. `gap` tells whether such a stretch is open. -/
def normalChars (started gap : Bool) : List Char → List Char
  | [] => []
  | c :: rest =>
    if c.isAlphanum || c = '.' then
      let kept := c.toLower :: normalChars true false rest
      if started && gap then '_' :: kept else kept
    else normalChars started true rest

def normalName (name : String) : String :=
  String.ofList (normalChars false false name.toList)

/-! ## Tables -/

def encodingNames : List (String × Encoding) := [
  ("utf_8", .plain .utf8), ("utf_8_sig", .signedUtf8), ("latin_1", .plain .latin1),
  ("ascii", .plain .ascii), ("cp1252", .plain .cp1252), ("utf_16", .marked .utf16),
  ("utf_32", .marked .utf32), ("utf_16_le", .plain (.utf16 .little)),
  ("utf_16_be", .plain (.utf16 .big)), ("utf_32_le", .plain (.utf32 .little)),
  ("utf_32_be", .plain (.utf32 .big))]

def encodingAliases : List (String × Encoding) := [
  ("cp65001", .plain .utf8), ("u8", .plain .utf8), ("utf", .plain .utf8), ("utf8", .plain .utf8),
  ("utf8_ucs2", .plain .utf8), ("utf8_ucs4", .plain .utf8), ("8859", .plain .latin1),
  ("cp819", .plain .latin1), ("csisolatin1", .plain .latin1), ("ibm819", .plain .latin1),
  ("iso8859", .plain .latin1), ("iso8859_1", .plain .latin1), ("iso_8859_1", .plain .latin1),
  ("iso_8859_1_1987", .plain .latin1), ("iso_ir_100", .plain .latin1), ("l1", .plain .latin1),
  ("latin", .plain .latin1), ("latin1", .plain .latin1), ("646", .plain .ascii),
  ("ansi_x3.4_1968", .plain .ascii), ("ansi_x3.4_1986", .plain .ascii),
  ("ansi_x3_4_1968", .plain .ascii), ("cp367", .plain .ascii), ("csascii", .plain .ascii),
  ("ibm367", .plain .ascii), ("iso646_us", .plain .ascii), ("iso_646.irv_1991", .plain .ascii),
  ("iso_ir_6", .plain .ascii), ("us", .plain .ascii), ("us_ascii", .plain .ascii),
  ("1252", .plain .cp1252), ("windows_1252", .plain .cp1252), ("u16", .marked .utf16),
  ("utf16", .marked .utf16), ("u32", .marked .utf32), ("utf32", .marked .utf32),
  ("unicodelittleunmarked", .plain (.utf16 .little)), ("utf_16le", .plain (.utf16 .little)),
  ("unicodebigunmarked", .plain (.utf16 .big)), ("utf_16be", .plain (.utf16 .big)),
  ("utf_32le", .plain (.utf32 .little)), ("utf_32be", .plain (.utf32 .big))]

def transformNames : List String := [
  "base64_codec", "bz2_codec", "hex_codec", "quopri_codec", "rot_13", "uu_codec", "zlib_codec"]

def transformAliases : List String := [
  "base64", "base_64", "bz2", "hex", "quopri", "quoted_printable", "quotedprintable", "rot13",
  "uu", "zip", "zlib"]

def foreignNames : List String := [
  "big5", "big5hkscs", "charmap", "cp037", "cp1006", "cp1026", "cp1125", "cp1140", "cp1250",
  "cp1251", "cp1253", "cp1254", "cp1255", "cp1256", "cp1257", "cp1258", "cp273", "cp424", "cp437",
  "cp500", "cp720", "cp737", "cp775", "cp850", "cp852", "cp855", "cp856", "cp857", "cp858",
  "cp860", "cp861", "cp862", "cp863", "cp864", "cp865", "cp866", "cp869", "cp874", "cp875",
  "cp932", "cp949", "cp950", "euc_jis_2004", "euc_jisx0213", "euc_jp", "euc_kr", "gb18030",
  "gb2312", "gbk", "hp_roman8", "hz", "idna", "iso2022_jp", "iso2022_jp_1", "iso2022_jp_2",
  "iso2022_jp_2004", "iso2022_jp_3", "iso2022_jp_ext", "iso2022_kr", "iso8859_10", "iso8859_11",
  "iso8859_13", "iso8859_14", "iso8859_15", "iso8859_16", "iso8859_2", "iso8859_3", "iso8859_4",
  "iso8859_5", "iso8859_6", "iso8859_7", "iso8859_8", "iso8859_9", "johab", "koi8_r", "koi8_t",
  "koi8_u", "kz1048", "mac_arabic", "mac_croatian", "mac_cyrillic", "mac_farsi", "mac_greek",
  "mac_iceland", "mac_latin2", "mac_roman", "mac_romanian", "mac_turkish", "palmos", "ptcp154",
  "punycode", "raw_unicode_escape", "shift_jis", "shift_jis_2004", "shift_jisx0213", "tis_620",
  "undefined", "unicode_escape", "utf_7"]

def foreignAliases : List String := [
  "big5_tw", "csbig5", "x_mac_trad_chinese", "big5_hkscs", "hkscs", "037", "csibm037",
  "ebcdic_cp_ca", "ebcdic_cp_nl", "ebcdic_cp_us", "ebcdic_cp_wt", "ibm037", "ibm039", "1026",
  "csibm1026", "ibm1026", "1125", "cp866u", "ibm1125", "ruscii", "1140", "ibm1140", "1250",
  "windows_1250", "1251", "windows_1251", "1253", "windows_1253", "1254", "windows_1254", "1255",
  "windows_1255", "1256", "windows_1256", "1257", "windows_1257", "1258", "windows_1258", "273",
  "csibm273", "ibm273", "424", "csibm424", "ebcdic_cp_he", "ibm424", "437", "cspc8codepage437",
  "ibm437", "500", "csibm500", "ebcdic_cp_be", "ebcdic_cp_ch", "ibm500", "775", "cspc775baltic",
  "ibm775", "850", "cspc850multilingual", "ibm850", "852", "cspcp852", "ibm852", "855", "csibm855",
  "ibm855", "857", "csibm857", "ibm857", "858", "csibm858", "ibm858", "860", "csibm860", "ibm860",
  "861", "cp_is", "csibm861", "ibm861", "862", "cspc862latinhebrew", "ibm862", "863", "csibm863",
  "ibm863", "864", "csibm864", "ibm864", "865", "csibm865", "ibm865", "866", "csibm866", "ibm866",
  "869", "cp_gr", "csibm869", "ibm869", "932", "ms932", "ms_kanji", "mskanji", "949", "ms949",
  "uhc", "950", "ms950", "euc_jis2004", "eucjis2004", "jisx0213", "eucjisx0213", "eucjp", "u_jis",
  "ujis", "euckr", "korean", "ks_c_5601", "ks_c_5601_1987", "ks_x_1001", "ksc5601", "ksx1001",
  "x_mac_korean", "gb18030_2000", "chinese", "csiso58gb231280", "euc_cn", "euccn", "eucgb2312_cn",
  "gb2312_1980", "gb2312_80", "iso_ir_58", "x_mac_simp_chinese", "936", "cp936", "ms936", "cp1051",
  "csHPRoman8", "ibm1051", "r8", "roman8", "hz_gb", "hz_gb_2312", "hzgb", "csiso2022jp",
  "iso2022jp", "iso_2022_jp", "iso2022jp_1", "iso_2022_jp_1", "iso2022jp_2", "iso_2022_jp_2",
  "iso2022jp_2004", "iso_2022_jp_2004", "iso2022jp_3", "iso_2022_jp_3", "iso2022jp_ext",
  "iso_2022_jp_ext", "csiso2022kr", "iso2022kr", "iso_2022_kr", "csisolatin6", "iso_8859_10",
  "iso_8859_10_1992", "iso_ir_157", "l6", "latin6", "iso_8859_11", "iso_8859_11_2001", "thai",
  "iso_8859_13", "l7", "latin7", "iso_8859_14", "iso_8859_14_1998", "iso_celtic", "iso_ir_199",
  "l8", "latin8", "iso_8859_15", "l9", "latin9", "iso_8859_16", "iso_8859_16_2001", "iso_ir_226",
  "l10", "latin10", "csisolatin2", "iso_8859_2", "iso_8859_2_1987", "iso_ir_101", "l2", "latin2",
  "csisolatin3", "iso_8859_3", "iso_8859_3_1988", "iso_ir_109", "l3", "latin3", "csisolatin4",
  "iso_8859_4", "iso_8859_4_1988", "iso_ir_110", "l4", "latin4", "csisolatincyrillic", "cyrillic",
  "iso_8859_5", "iso_8859_5_1988", "iso_ir_144", "arabic", "asmo_708", "csisolatinarabic",
  "ecma_114", "iso_8859_6", "iso_8859_6_1987", "iso_ir_127", "csisolatingreek", "ecma_118",
  "elot_928", "greek", "greek8", "iso_8859_7", "iso_8859_7_1987", "iso_ir_126", "csisolatinhebrew",
  "hebrew", "iso_8859_8", "iso_8859_8_1988", "iso_ir_138", "csisolatin5", "iso_8859_9",
  "iso_8859_9_1989", "iso_ir_148", "l5", "latin5", "cp1361", "ms1361", "cskoi8r", "kz_1048",
  "rk1048", "strk1048_2002", "maccyrillic", "macgreek", "maciceland", "mac_centeuro",
  "maccentraleurope", "maclatin2", "macintosh", "macroman", "macturkish", "cp154", "csptcp154",
  "cyrillic_asian", "pt154", "csshiftjis", "s_jis", "shiftjis", "sjis", "x_mac_japanese",
  "s_jis_2004", "shiftjis2004", "sjis_2004", "s_jisx0213", "shiftjisx0213", "sjisx0213",
  "iso_ir_166", "tis620", "tis_620_0", "tis_620_2529_0", "tis_620_2529_1", "u7",
  "unicode_1_1_utf_7", "utf7"]

/-! ## Lookup -/

def ofTables (encodings : List (String × Encoding)) (transforms foreigns : List String)
    (name : String) : Option Codec :=
  match encodings.lookup name with
  | some encoding => some (.text encoding)
  | none =>
    if transforms.contains name then some .transform
    else if foreigns.contains name then some .foreign
    else none

def ofAlias? (name : String) : Option Codec :=
  ofTables encodingAliases transformAliases foreignAliases name

def ofProperName? (name : String) : Option Codec :=
  ofTables encodingNames transformNames foreignNames name

def ofName? (name : String) : Option Codec :=
  let normal := normalName name
  let undotted := String.ofList (normal.toList.map fun c => if c = '.' then '_' else c)
  (ofAlias? normal <|> ofAlias? undotted) <|> ofProperName? normal

end Codec

end ResourceAccessors
