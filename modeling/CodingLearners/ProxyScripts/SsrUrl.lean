import CodingLearners.Library.JsonLines
import CodingLearners.Library.SeparatedText
import CodingLearners.ProxyScripts.DeBase64Url
import Mathlib.Data.List.Find

/-!
# `convert_ssr_url_to_config.sh`

The script takes a decoded address apart with prefix and suffix cuts at colons,
slashes, `&` and `=`. It looks for the last slash where the password ends, and
for the first one where the parameters begin; the documented format has only
the slash between the two.

## Implementation notes

The variables of the parameters are unset at the start. What the variables hold
after the loop is printed between quotes as it is, on lines that make up JSON;
what a configuration says is what a reader of JSON finds there.
-/

namespace CodingLearners.ProxyScripts

open ShellText ShellPattern ShellPattern.Item SeparatedText FlatJson

/-! ## The script -/

/-- What the script finds in an address. -/
structure SsrConfig where
  serverinfo : Text
  portinfo : Text
  protocolinfo : Text
  methodinfo : Text
  obfsinfo : Text
  passwd : Text
  obfsparaminfo : Text
  protoparaminfo : Text
  deriving DecidableEq

/-- The variables that the loop sets. -/
structure SsrParams where
  obfsparaminfo : Text
  protoparaminfo : Text

/-- `${thep%=*}` -/
def argn (thep : Text) : Text := cutShortestSuffix [lit 61, many] thep

/-- `${thep#*=}` -/
def valn (thep : Text) : Text := cutShortestPrefix [many, lit 61] thep

variable (tools : Tools)

/-- The body of the loop. -/
def readParam (vars : SsrParams) (thep : Text) : SsrParams :=
  let tval := decoded tools (valn thep)
  let vars := if argn thep = ascii "obfsparam" then { vars with obfsparaminfo := tval } else vars
  if argn thep = ascii "protoparam" then { vars with protoparaminfo := tval } else vars

/-- The script, up to what it prints; `none` if the loop does not end. -/
def convertSsr (url : Text) : Option SsrConfig :=
  let ssrurl := cutShortestPrefix [many, lit 47, lit 47] url
  let demain := decoded tools ssrurl
  let minfo := cutShortestSuffix [lit 47, any, many] demain
  let serverinfo := cutLongestSuffix [lit 58, many] minfo
  let minfo := cutShortestPrefix [many, lit 58] minfo
  let portinfo := cutLongestSuffix [lit 58, many] minfo
  let minfo := cutShortestPrefix [many, lit 58] minfo
  let protocolinfo := cutLongestSuffix [lit 58, many] minfo
  let minfo := cutShortestPrefix [many, lit 58] minfo
  let methodinfo := cutLongestSuffix [lit 58, many] minfo
  let minfo := cutShortestPrefix [many, lit 58] minfo
  let obfsinfo := cutLongestSuffix [lit 58, many] minfo
  let passwd := decoded tools (cutLongestPrefix [many, lit 58] minfo)
  let parm := cutShortestPrefix [many, lit 47, any] demain
  (eatFirst 38 (readParam tools) parm.length ⟨[], []⟩ parm).map fun vars =>
    { serverinfo, portinfo, protocolinfo, methodinfo, obfsinfo, passwd
      obfsparaminfo := vars.obfsparaminfo
      protoparaminfo := vars.protoparaminfo }

/-- What the script prints. -/
def printSsr (config : SsrConfig) : Text :=
  [ascii "\x7b",
    ascii "  \"server\": \"" ++ config.serverinfo ++ ascii "\", ",
    ascii "  \"local_address\": \"127.0.0.1\", ",
    ascii "  \"local_port\": 1083, ",
    ascii "  \"timeout\": 300, ",
    ascii "  \"workers\": 1, ",
    ascii "  \"server_port\": " ++ config.portinfo ++ ascii ", ",
    ascii "  \"password\": \"" ++ config.passwd ++ ascii "\", ",
    ascii "  \"method\": \"" ++ config.methodinfo ++ ascii "\", ",
    ascii "  \"obfs\": \"" ++ config.obfsinfo ++ ascii "\", ",
    ascii "  \"obfs_param\": \"" ++ config.obfsparaminfo ++ ascii "\", ",
    ascii "  \"protocol\": \"" ++ config.protocolinfo ++ ascii "\", ",
    ascii "  \"protocol_param\": \"" ++ config.protoparaminfo ++ ascii "\" ",
    ascii "\x7d",
    ascii " "].flatMap echo

/-! ## The format -/

structure SsrParam where
  name : Text
  value : Encoded

/-- What an address says. -/
structure SsrRecord where
  server : Text
  port : Text
  protocol : Text
  method : Text
  obfs : Text
  password : Encoded
  params : List SsrParam
  colon_free : ∀ field ∈ [server, port, protocol, method, obfs], 58 ∉ field
  password_end : ∀ c ∈ password.data.getLast?, c ≠ 10

/-- `name=value` -/
def SsrParam.text (param : SsrParam) : Text := param.name ++ 61 :: param.value.text

/-- `name=value&name=value` -/
def SsrRecord.paramText (record : SsrRecord) : Text :=
  [38].intercalate (record.params.map SsrParam.text)

/-- `server:port:protocol:method:obfs:password_base64/?params` -/
def SsrRecord.text (record : SsrRecord) : Text :=
  record.server ++ 58 :: (record.port ++ 58 :: (record.protocol ++ 58 :: (record.method ++ 58 ::
    (record.obfs ++ 58 :: (record.password.text ++ 47 :: 63 :: record.paramText)))))

/-- The address of a record, in any way to write base64. -/
def SsrRecord.url (record : SsrRecord) (urlSafe padded : Bool) : Text :=
  ascii "ssr://" ++ (Encoded.mk record.text urlSafe padded).text

/-- The value of the last parameter of a name; nothing, if there is none. -/
def SsrRecord.valueOf (record : SsrRecord) (name : Text) : Text :=
  ((record.params.reverse.find? fun param => decide (param.name = name)).map
    fun param => param.value.data).getD []

/-- What belongs to a record. -/
def SsrRecord.config (record : SsrRecord) : SsrConfig where
  serverinfo := record.server
  portinfo := record.port
  protocolinfo := record.protocol
  methodinfo := record.method
  obfsinfo := record.obfs
  passwd := record.password.data
  obfsparaminfo := record.valueOf (ascii "obfsparam")
  protoparaminfo := record.valueOf (ascii "protoparam")

/-- The members of the configuration that says this. -/
def SsrConfig.members (config : SsrConfig) : List (Text × Content) :=
  [(ascii "server", .string config.serverinfo),
    (ascii "local_address", .string (ascii "127.0.0.1")),
    (ascii "local_port", .number (ascii "1083")),
    (ascii "timeout", .number (ascii "300")),
    (ascii "workers", .number (ascii "1")),
    (ascii "server_port", .number config.portinfo),
    (ascii "password", .string config.passwd),
    (ascii "method", .string config.methodinfo),
    (ascii "obfs", .string config.obfsinfo),
    (ascii "obfs_param", .string config.obfsparaminfo),
    (ascii "protocol", .string config.protocolinfo),
    (ascii "protocol_param", .string config.protoparaminfo)]

/-! ## Where the script looks -/

/-- What a command substitution keeps of a text: it drops the zero bytes. -/
def kept (text : Text) : Text := text.filter fun c => decide (c ≠ 0)

/-- What the script sees of a record. -/
def SsrRecord.seen (record : SsrRecord) : Text := kept record.text

/-- What stands behind the last colon before the last slash, a slash at the very
end aside. -/
def passwordText (seen : Text) : Text :=
  cutLongestPrefix [many, lit 58] (cutShortestSuffix [lit 47, any, many] seen)

/-- The pieces between `&` behind the first slash and the character after it. -/
def paramPieces (seen : Text) : List Text :=
  (cutShortestPrefix [many, lit 47, any] seen).splitOn 38

/-- The last piece with a name, which is what stands before its last `=`. -/
def lastNamed (seen : Text) (name : Text) : Option Text :=
  (paramPieces seen).reverse.find? fun thep => decide (argn thep = name)

/-- The text encodes a way to write the value in JSON. -/
def Conveys (text value : Text) : Prop := ∃ printed, Encodes text printed ∧ Spells printed value

/-- The last piece with the name has the value behind its first `=`; or there is none,
and there is nothing to be found. -/
def ParamLegible (seen name value : Text) : Prop :=
  match lastNamed seen name with
  | some thep => Conveys (valn thep) value
  | none => value = []

/-- What the script looks for stands where it looks, and can be printed. -/
structure SsrRecord.Legible (record : SsrRecord) : Prop where
  fields : ∀ field ∈ [record.server, record.protocol, record.method, record.obfs], Shown field
  port : Js.isJsonNumber (record.port.map UInt8.toUInt16) = true
  password : Conveys (passwordText record.seen) record.password.data
  obfsparam : ParamLegible record.seen (ascii "obfsparam") (record.valueOf (ascii "obfsparam"))
  protoparam : ParamLegible record.seen (ascii "protoparam") (record.valueOf (ascii "protoparam"))

/-! ## What is printed -/

/-- A line of the configuration. -/
def configRow (before after : Space) (name : Text)
    (hname : ∀ c ∈ name, c.toNat < 128 ∧ 32 ≤ c.toNat ∧ c ≠ 34 ∧ c ≠ 92) (content : Content)
    (printed : Text) : Row where
  before := before
  name := name
  content := content
  printed := printed
  after := after
  plain := hname

/-- The lines of a configuration that is printed for another one. -/
def SsrConfig.rows (printed config : SsrConfig) : List Row :=
  let first : Space := ⟨[10, 32, 32], by simp⟩
  let next : Space := ⟨[32, 10, 32, 32], by simp⟩
  let no : Space := .empty
  let last : Space := ⟨[32, 10], by simp⟩
  [configRow first no (ascii "server") (forall_mem_of_all (by decide))
      (.string config.serverinfo) printed.serverinfo,
    configRow next no (ascii "local_address") (forall_mem_of_all (by decide))
      (.string (ascii "127.0.0.1")) (ascii "127.0.0.1"),
    configRow next no (ascii "local_port") (forall_mem_of_all (by decide))
      (.number (ascii "1083")) (ascii "1083"),
    configRow next no (ascii "timeout") (forall_mem_of_all (by decide))
      (.number (ascii "300")) (ascii "300"),
    configRow next no (ascii "workers") (forall_mem_of_all (by decide))
      (.number (ascii "1")) (ascii "1"),
    configRow next no (ascii "server_port") (forall_mem_of_all (by decide))
      (.number config.portinfo) printed.portinfo,
    configRow next no (ascii "password") (forall_mem_of_all (by decide))
      (.string config.passwd) printed.passwd,
    configRow next no (ascii "method") (forall_mem_of_all (by decide))
      (.string config.methodinfo) printed.methodinfo,
    configRow next no (ascii "obfs") (forall_mem_of_all (by decide))
      (.string config.obfsinfo) printed.obfsinfo,
    configRow next no (ascii "obfs_param") (forall_mem_of_all (by decide))
      (.string config.obfsparaminfo) printed.obfsparaminfo,
    configRow next no (ascii "protocol") (forall_mem_of_all (by decide))
      (.string config.protocolinfo) printed.protocolinfo,
    configRow next last (ascii "protocol_param") (forall_mem_of_all (by decide))
      (.string config.protoparaminfo) printed.protoparaminfo]

set_option maxRecDepth 2000 in
/-- The script prints an object line by line. -/
theorem printSsr_eq (printed config : SsrConfig) :
    printSsr printed = printedObject (printed.rows config) ⟨[10, 32, 10], by simp⟩ := by
  simp [printSsr, echo, isEchoOption, ascii, printedObject, SsrConfig.rows, configRow, Row.text,
    Row.valueText, List.intercalate]

theorem rows_members (printed config : SsrConfig) :
    ((printed.rows config).map fun row => (row.name, row.content)) = config.members := rfl

/-- A configuration says what it shall if and only if every value is printed in a way to
write it. -/
theorem reads_printSsr_iff (printed config : SsrConfig) :
    Reads (printSsr printed) config.members ↔
      Spells printed.serverinfo config.serverinfo ∧ SpellsNumber printed.portinfo config.portinfo ∧
      Spells printed.passwd config.passwd ∧ Spells printed.methodinfo config.methodinfo ∧
      Spells printed.obfsinfo config.obfsinfo ∧
      Spells printed.obfsparaminfo config.obfsparaminfo ∧
      Spells printed.protocolinfo config.protocolinfo ∧
      Spells printed.protoparaminfo config.protoparaminfo := by
  have hlocal : Spells (ascii "127.0.0.1") (ascii "127.0.0.1") :=
    Shown.spells ⟨forall_mem_of_all (by decide), isUtf8_of_ascii (forall_mem_of_all (by decide))⟩
  have h1083 : SpellsNumber (ascii "1083") (ascii "1083") :=
    (spellsNumber_iff (le_refl _)).mpr ⟨rfl, by decide⟩
  have h300 : SpellsNumber (ascii "300") (ascii "300") :=
    (spellsNumber_iff (le_refl _)).mpr ⟨rfl, by decide⟩
  have h1 : SpellsNumber (ascii "1") (ascii "1") :=
    (spellsNumber_iff (le_refl _)).mpr ⟨rfl, by decide⟩
  rw [printSsr_eq printed config, ← rows_members printed config, reads_iff]
  · simp only [SsrConfig.rows, List.forall_mem_cons]
    have hstring : ∀ (before after : Space) name hname value printed,
        (configRow before after name hname (.string value) printed).Spelled ∧
          IsUtf8 (configRow before after name hname (.string value) printed).printed ↔
        Spells printed value := fun _ _ _ _ _ _ => Iff.rfl
    have hnumber : ∀ (before after : Space) name hname text printed,
        (configRow before after name hname (.number text) printed).Spelled ∧
          IsUtf8 (configRow before after name hname (.number text) printed).printed ↔
        SpellsNumber printed text := fun _ _ _ _ _ _ => Iff.rfl
    simp only [hstring, hnumber, hlocal, h1083, h300, h1, true_and]
    simp
  · simp [SsrConfig.rows]
  · simp [SsrConfig.rows, configRow, ascii]
  · simp [SsrConfig.rows, configRow]

/-! ## The loop -/

theorem readParam_eq (vars : SsrParams) (thep : Text) :
    readParam tools vars thep =
      { obfsparaminfo := if argn thep = ascii "obfsparam" then decoded tools (valn thep)
          else vars.obfsparaminfo
        protoparaminfo := if argn thep = ascii "protoparam" then decoded tools (valn thep)
          else vars.protoparaminfo } := by
  unfold readParam
  dsimp only
  split_ifs <;> rfl

theorem readParam_twice (vars : SsrParams) (thep : Text) :
    readParam tools (readParam tools vars thep) thep = readParam tools vars thep := by
  simp only [readParam_eq]
  split_ifs <;> rfl

theorem readParam_nil (vars : SsrParams) : readParam tools vars [] = vars := by
  have hobfs : argn [] ≠ ascii "obfsparam" := by decide
  have hproto : argn [] ≠ ascii "protoparam" := by decide
  simp [readParam_eq, hobfs, hproto]

/-- What the loop leaves in the variable of a name. -/
def lastValue (pieces : List Text) (name : Text) : Text :=
  ((pieces.reverse.find? fun thep => decide (argn thep = name)).map fun thep =>
    decoded tools (valn thep)).getD []

/-- The last piece with the name counts. -/
theorem foldl_readParam (pieces : List Text) :
    pieces.foldl (readParam tools) ⟨[], []⟩ =
      ⟨lastValue tools pieces (ascii "obfsparam"),
        lastValue tools pieces (ascii "protoparam")⟩ := by
  have hobfs := foldl_last (readParam tools) SsrParams.obfsparaminfo
    (fun thep => decide (argn thep = ascii "obfsparam")) (fun thep => decoded tools (valn thep))
    (by simp [readParam_eq]) pieces ⟨[], []⟩
  have hproto := foldl_last (readParam tools) SsrParams.protoparaminfo
    (fun thep => decide (argn thep = ascii "protoparam")) (fun thep => decoded tools (valn thep))
    (by simp [readParam_eq]) pieces ⟨[], []⟩
  rw [lastValue, lastValue, ← hobfs, ← hproto]

/-! ## The text that is decoded -/

section Decoding

variable {tools} (record : SsrRecord)

theorem paramText_last : ∀ c ∈ record.paramText.getLast?, c ≠ 0 ∧ c ≠ 10 := by
  have hvalue : ∀ param : SsrParam, ∀ c ∈ param.text.getLast?, c ≠ 0 ∧ c ≠ 10 := by
    intro param c hc
    rw [SsrParam.text, List.getLast?_append, List.getLast?_cons] at hc
    obtain rfl : param.value.text.getLast?.getD 61 = c := by simpa using hc
    cases hlast : param.value.text.getLast? with
    | none => decide
    | some c =>
        have hplain := List.all_eq_true.mp param.value.plain c (List.mem_of_getLast? hlast)
        constructor
        · rintro rfl
          exact absurd hplain (by decide)
        · rintro rfl
          exact absurd hplain (by decide)
  unfold SsrRecord.paramText
  induction record.params with
  | nil => simp
  | cons param params ih =>
      cases params with
      | nil => simpa using hvalue param
      | cons next params =>
          intro c hc
          rw [List.map_cons, List.map_cons, List.intercalate_cons_cons, List.getLast?_append,
            ← List.map_cons] at hc
          cases hlast : ([38].intercalate ((next :: params).map SsrParam.text)).getLast? with
          | none =>
              rw [hlast] at hc
              obtain rfl : 38 = c := by simpa using hc
              decide
          | some c' =>
              rw [hlast] at hc
              obtain rfl : c' = c := by simpa using hc
              exact ih c' hlast

/-- What the script decodes the address to. -/
theorem decoded_url (htools : tools.Standard) (urlSafe padded : Bool) :
    decoded tools (cutShortestPrefix [many, lit 47, lit 47] (record.url urlSafe padded)) =
      record.seen := by
  have hcut : cutShortestPrefix [many, lit 47, lit 47] (record.url urlSafe padded) =
      (Encoded.mk record.text urlSafe padded).text := by
    have hscheme : record.url urlSafe padded = ascii "ssr:" ++
        47 :: 47 :: (Encoded.mk record.text urlSafe padded).text := rfl
    rw [hscheme]
    exact cutShortestPrefix_double (by decide)
  have hdecoded := (Encoded.mk record.text urlSafe padded).decoded_text
    (by simp [SsrRecord.text]) htools
  have hkept : substitution record.text = record.seen := by
    apply substitution_eq_filter
    intro c hc
    simp only [SsrRecord.text, List.getLast?_append, List.getLast?_cons] at hc
    cases hlast : record.paramText.getLast? with
    | none =>
        rw [hlast] at hc
        obtain rfl : 63 = c := by simpa using hc
        decide
    | some c' =>
        rw [hlast] at hc
        obtain rfl : c' = c := by simpa using hc
        exact paramText_last record c' hlast
  rw [hcut, hdecoded, hkept]

/-- Up to the fields, the cuts do not depend on where the last slash is. -/
theorem minfo_eq : cutShortestSuffix [lit 47, any, many] record.seen =
    kept record.server ++ 58 :: (kept record.port ++ 58 :: (kept record.protocol ++
      58 :: (kept record.method ++ 58 :: (kept record.obfs ++ 58 ::
        cutShortestSuffix [lit 47, any, many]
          (kept record.password.text ++ 47 :: 63 :: kept record.paramText))))) := by
  have hseen : record.seen = (kept record.server ++ 58 :: (kept record.port ++ 58 ::
      (kept record.protocol ++ 58 :: (kept record.method ++ 58 :: (kept record.obfs ++ [58]))))) ++
        (kept record.password.text ++ 47 :: 63 :: kept record.paramText) := by
    simp [SsrRecord.seen, SsrRecord.text, kept]
  rw [hseen, cutShortestSuffix_any_append]
  simp

theorem colon_kept {field : Text} (h : 58 ∉ field) : 58 ∉ kept field :=
  fun hmem => h (List.mem_of_mem_filter hmem)

theorem kept_eq_self_iff (text : Text) : kept text = text ↔ 0 ∉ text := by
  rw [kept, List.filter_eq_self]
  constructor
  · intro h hzero
    simpa using h 0 hzero
  · intro h c hc
    simpa using ne_of_mem_of_not_mem hc h

/-- What the script makes of the address of a record. -/
theorem convertSsr_eq (htools : tools.Standard) (urlSafe padded : Bool) :
    convertSsr tools (record.url urlSafe padded) = some
      { serverinfo := kept record.server
        portinfo := kept record.port
        protocolinfo := kept record.protocol
        methodinfo := kept record.method
        obfsinfo := kept record.obfs
        passwd := decoded tools (passwordText record.seen)
        obfsparaminfo := lastValue tools (paramPieces record.seen) (ascii "obfsparam")
        protoparaminfo := lastValue tools (paramPieces record.seen) (ascii "protoparam") } := by
  have hcolon := record.colon_free
  simp only [List.forall_mem_cons] at hcolon
  obtain ⟨hserver, hport, hprotocol, hmethod, hobfs, _⟩ := hcolon
  have hpassword : passwordText record.seen = cutLongestPrefix [many, lit 58]
      (kept record.obfs ++ 58 :: cutShortestSuffix [lit 47, any, many]
        (kept record.password.text ++ 47 :: 63 :: kept record.paramText)) := by
    rw [passwordText, minfo_eq]
    have hfront := cutLongestPrefix_char_append
      (kept record.server ++ 58 :: (kept record.port ++ 58 :: (kept record.protocol ++
        58 :: (kept record.method ++ [58])))) (kept record.obfs)
      (cutShortestSuffix [lit 47, any, many]
        (kept record.password.text ++ 47 :: 63 :: kept record.paramText)) 58
    simpa using hfront
  rw [convertSsr, decoded_url record htools]
  simp only [minfo_eq, cutLongestSuffix_char (colon_kept hserver),
    cutShortestPrefix_char (colon_kept hserver), cutLongestSuffix_char (colon_kept hport),
    cutShortestPrefix_char (colon_kept hport), cutLongestSuffix_char (colon_kept hprotocol),
    cutShortestPrefix_char (colon_kept hprotocol), cutLongestSuffix_char (colon_kept hmethod),
    cutShortestPrefix_char (colon_kept hmethod), cutLongestSuffix_char (colon_kept hobfs)]
  rw [eatFirst_eq (readParam_twice tools) (readParam_nil tools) (Nat.le_refl _),
    foldl_readParam, hpassword]
  rfl

end Decoding

/-- What is decoded and printed can be read, whatever the tools do elsewhere, if and only
if the text has an encoding of it. -/
theorem conveys_iff (text value : Text) :
    (∀ tools : Tools, tools.Standard → Spells (decoded tools text) value) ↔
      Conveys text value := by
  constructor
  · intro h
    by_cases hencodes : ∃ printed, Encodes text printed
    · obtain ⟨printed, hprinted⟩ := hencodes
      have hvalue := h _ (adversary_standard [])
      rw [(decoded_iff text printed).mpr hprinted _ (adversary_standard [])] at hvalue
      exact ⟨printed, hprinted, hvalue⟩
    · -- two tools that print different letters
      have hnot : text.all isPlain = true → ¬ ∃ data, pad (strcoded text) = Base64.encode data :=
        fun hplain ⟨data, hdata⟩ => hencodes ⟨_, hplain, data, hdata, rfl⟩
      have hempty := h _ (adversary_standard [])
      have hletter := h _ (adversary_standard [97])
      rw [decoded_adversary (by decide) (by decide) hnot] at hempty hletter
      have hvalue := (hempty.eq_of_plain (forall_mem_of_all (by decide))).symm.trans
        (hletter.eq_of_plain (forall_mem_of_all (by decide)))
      exact absurd hvalue (by decide)
  · rintro ⟨printed, hprinted, hspells⟩ tools htools
    rwa [(decoded_iff text printed).mpr hprinted tools htools]

theorem spells_nil_iff (value : Text) : Spells [] value ↔ value = [] := by
  constructor
  · exact fun h => h.eq_of_plain (by simp)
  · rintro rfl
    exact Shown.spells ⟨by simp, .nil⟩

/-- A parameter is printed, whatever the tools do elsewhere, if and only if it
stands where the script looks. -/
theorem lastValue_iff (seen name value : Text) :
    (∀ tools : Tools, tools.Standard → Spells (lastValue tools (paramPieces seen) name) value) ↔
      ParamLegible seen name value := by
  unfold ParamLegible
  cases hnamed : lastNamed seen name with
  | none =>
      have hvalue : ∀ tools : Tools, lastValue tools (paramPieces seen) name = [] := by
        intro tools
        rw [lastValue, ← lastNamed, hnamed]
        rfl
      simp only [hvalue, spells_nil_iff]
      exact ⟨fun h => h _ (adversary_standard []), fun h _ _ => h⟩
  | some thep =>
      have hvalue : ∀ tools : Tools,
          lastValue tools (paramPieces seen) name = decoded tools (valn thep) := by
        intro tools
        rw [lastValue, ← lastNamed, hnamed]
        rfl
      simp only [hvalue]
      exact conveys_iff (valn thep) value

theorem length_kept_le (text : Text) : (kept text).length ≤ text.length :=
  List.length_filter_le _ _

theorem spells_kept_iff (field : Text) : Spells (kept field) field ↔ Shown field := by
  rw [spells_iff_of_length_le (length_kept_le field), and_iff_right_iff_imp, kept_eq_self_iff]
  exact fun h hzero => absurd (h.bytes 0 hzero).1 (by decide)

theorem spellsNumber_kept_iff (text : Text) :
    SpellsNumber (kept text) text ↔ Js.isJsonNumber (text.map UInt8.toUInt16) = true := by
  rw [spellsNumber_iff (length_kept_le text), and_iff_right_iff_imp, kept_eq_self_iff]
  exact fun h => Numeral.not_mem ⟨text, h⟩ (by decide)

/-! ## Records that are legible -/

/-- A base64 text without slash and padding that is no option of `echo`, of bytes
that a command substitution keeps. -/
structure Encoded.Legible (e : Encoded) : Prop where
  slash : 47 ∉ e.text
  equal : 61 ∉ e.text
  option : isEchoOption e.text = false
  bytes : substitution e.data = e.data

theorem Encoded.Legible.encodes {e : Encoded} (h : e.Legible) : Encodes e.text e.data := by
  rw [Encoded.encodes_iff, h.option, if_neg Bool.false_ne_true, h.bytes]

theorem Encoded.not_mem_text (e : Encoded) {c : UInt8} (hc : isPlain c = false) : c ∉ e.text := by
  intro hmem
  have hplain := List.all_eq_true.mp e.plain c hmem
  rw [hc] at hplain
  cases hplain

theorem Encoded.Legible.conveys {e : Encoded} (h : e.Legible) (hshown : Shown e.data) :
    Conveys e.text e.data :=
  ⟨e.data, h.encodes, hshown.spells⟩

/-- A record in which only the documented separators occur, of values that can be printed
as they are. -/
structure SsrRecord.Plain (record : SsrRecord) : Prop where
  fields : ∀ field ∈ [record.server, record.protocol, record.method, record.obfs],
    Shown field ∧ 47 ∉ field
  port : Js.isJsonNumber (record.port.map UInt8.toUInt16) = true
  password : record.password.Legible ∧ Shown record.password.data
  names : ∀ param ∈ record.params, ∀ c ∈ ([0, 38, 47, 61] : Text), c ∉ param.name
  values : ∀ param ∈ record.params, param.value.Legible
  shown : ∀ param ∈ record.params, param.name ∈ [ascii "obfsparam", ascii "protoparam"] →
    Shown param.value.data

section Plain

variable {record : SsrRecord}

theorem SsrRecord.Plain.not_mem_fields (h : record.Plain) :
    ∀ field ∈ [record.server, record.port, record.protocol, record.method, record.obfs],
      0 ∉ field ∧ 47 ∉ field := by
  have hshown : ∀ field ∈ [record.server, record.protocol, record.method, record.obfs],
      0 ∉ field ∧ 47 ∉ field := fun field hfield =>
    ⟨fun hzero => absurd ((h.fields field hfield).1.bytes 0 hzero).1 (by decide),
      (h.fields field hfield).2⟩
  have hport : 0 ∉ record.port ∧ 47 ∉ record.port :=
    ⟨Numeral.not_mem ⟨record.port, h.port⟩ (by decide),
      Numeral.not_mem ⟨record.port, h.port⟩ (by decide)⟩
  simp only [List.forall_mem_cons] at hshown ⊢
  exact ⟨hshown.1, hport, hshown.2⟩

theorem SsrRecord.Plain.not_mem_param (h : record.Plain) {param : SsrParam}
    (hparam : param ∈ record.params) {c : UInt8} (hc : c ∈ ([0, 38, 47] : Text)) :
    c ∉ param.text := by
  have hname : c ∉ param.name := h.names param hparam c (by
    simp only [List.mem_cons, List.not_mem_nil, or_false] at hc ⊢
    rcases hc with rfl | rfl | rfl <;> simp)
  have hvalue : c ∉ param.value.text ∧ c ≠ 61 := by
    simp only [List.mem_cons, List.not_mem_nil, or_false] at hc
    rcases hc with rfl | rfl | rfl
    · exact ⟨param.value.not_mem_text (by decide), by decide⟩
    · exact ⟨param.value.not_mem_text (by decide), by decide⟩
    · exact ⟨(h.values param hparam).slash, by decide⟩
  simp [SsrParam.text, hname, hvalue.1, hvalue.2]

theorem SsrRecord.Plain.not_mem_paramText (h : record.Plain) {c : UInt8}
    (hc : c ∈ ([0, 47] : Text)) : c ∉ record.paramText := by
  have hparams : ∀ text ∈ record.params.map SsrParam.text, c ∉ text := by
    intro text htext
    obtain ⟨param, hparam, rfl⟩ := List.mem_map.mp htext
    apply h.not_mem_param hparam
    simp only [List.mem_cons, List.not_mem_nil, or_false] at hc ⊢
    rcases hc with rfl | rfl <;> simp
  have hsep : c ≠ 38 := by
    simp only [List.mem_cons, List.not_mem_nil, or_false] at hc
    rcases hc with rfl | rfl <;> decide
  exact not_mem_intercalate hsep hparams

theorem SsrRecord.Plain.seen (h : record.Plain) : record.seen = record.text := by
  have hfields := h.not_mem_fields
  simp only [List.forall_mem_cons] at hfields
  obtain ⟨h₁, h₂, h₃, h₄, h₅, _⟩ := hfields
  rw [SsrRecord.seen, kept_eq_self_iff]
  simp [SsrRecord.text, h₁.1, h₂.1, h₃.1, h₄.1, h₅.1,
    record.password.not_mem_text (show isPlain 0 = false by decide),
    h.not_mem_paramText (show (0 : UInt8) ∈ ([0, 47] : Text) by simp)]

theorem SsrRecord.text_eq (record : SsrRecord) : record.text =
    (record.server ++ 58 :: (record.port ++ 58 :: (record.protocol ++ 58 :: (record.method ++
      58 :: (record.obfs ++ 58 :: record.password.text))))) ++ 47 :: 63 :: record.paramText := by
  simp [SsrRecord.text]

theorem SsrRecord.Plain.passwordText (h : record.Plain) :
    passwordText record.seen = record.password.text := by
  have hfields : record.server ++ 58 :: (record.port ++ 58 :: (record.protocol ++
      58 :: (record.method ++ 58 :: (record.obfs ++ 58 :: record.password.text)))) =
        (record.server ++ 58 :: (record.port ++ 58 :: (record.protocol ++
          58 :: (record.method ++ 58 :: record.obfs)))) ++ 58 :: record.password.text := by
    simp
  have hslash : 47 ∉ (63 :: record.paramText).dropLast := by
    intro hmem
    have hparam := h.not_mem_paramText (show (47 : UInt8) ∈ ([0, 47] : Text) by simp)
    simpa [hparam] using List.mem_of_mem_dropLast hmem
  rw [ProxyScripts.passwordText, h.seen, record.text_eq, cutShortestSuffix_any hslash, hfields]
  exact cutLongestPrefix_char (record.password.not_mem_text (by decide))

theorem SsrRecord.Plain.paramPieces (h : record.Plain) :
    paramPieces record.seen = record.paramText.splitOn 38 := by
  have hfields := h.not_mem_fields
  simp only [List.forall_mem_cons] at hfields
  obtain ⟨h₁, h₂, h₃, h₄, h₅, _⟩ := hfields
  have hslash : 47 ∉ record.server ++ 58 :: (record.port ++ 58 :: (record.protocol ++
      58 :: (record.method ++ 58 :: (record.obfs ++ 58 :: record.password.text)))) := by
    simp [h₁.2, h₂.2, h₃.2, h₄.2, h₅.2, h.password.1.slash]
  rw [ProxyScripts.paramPieces, h.seen, record.text_eq, cutShortestPrefix_any hslash]

/-- The loop finds the parameters under their names. -/
theorem SsrRecord.Plain.lastNamed (h : record.Plain) {name : Text} (hname : name ≠ []) :
    lastNamed record.seen name =
      (record.params.reverse.find? fun param => decide (param.name = name)).map
        SsrParam.text := by
  rw [ProxyScripts.lastNamed, h.paramPieces, SsrRecord.paramText]
  cases hparams : record.params with
  | nil =>
      have hnil : argn [] ≠ name := fun heq => hname (heq ▸ rfl)
      simp [hnil]
  | cons param params =>
      rw [← hparams, List.splitOn_intercalate, ← List.map_reverse, List.find?_map]
      · congr 1
        apply List.find?_congr
        intro param' hmem
        have hparam := List.mem_reverse.mp hmem
        have hargn : argn param'.text = param'.name :=
          cutShortestSuffix_char (h.values param' hparam).equal
        simp [hargn]
      · intro text htext
        obtain ⟨param', hparam, rfl⟩ := List.mem_map.mp htext
        exact h.not_mem_param hparam (by simp)
      · simp [hparams]

theorem SsrRecord.Plain.paramLegible (h : record.Plain) {name : Text}
    (hname : name ∈ [ascii "obfsparam", ascii "protoparam"]) :
    ParamLegible record.seen name (record.valueOf name) := by
  have hnil : name ≠ [] := by
    rintro rfl
    exact absurd hname (by decide)
  rw [ParamLegible, h.lastNamed hnil, SsrRecord.valueOf]
  cases hfind : record.params.reverse.find? fun param => decide (param.name = name) with
  | none => rfl
  | some param =>
      have hparam : param ∈ record.params :=
        List.mem_reverse.mp (List.mem_of_find?_eq_some hfind)
      have hfound : param.name = name := by simpa using List.find?_some hfind
      have hvaln : valn param.text = param.value.text :=
        cutShortestPrefix_char (h.names param hparam 61 (by simp))
      simp only [Option.map_some, Option.getD_some]
      rw [hvaln]
      exact (h.values param hparam).conveys (h.shown param hparam (hfound ▸ hname))

/-- A record in which only the documented separators occur is legible. -/
theorem SsrRecord.Plain.legible (h : record.Plain) : record.Legible where
  fields field hfield := (h.fields field hfield).1
  port := h.port
  password := by
    rw [h.passwordText]
    exact h.password.1.conveys h.password.2
  obfsparam := h.paramLegible (by simp)
  protoparam := h.paramLegible (by simp)

end Plain

/-- For every record and every way to write its address: the script prints the
configuration of the record, whatever the tools do with what is not standard, if
and only if everything stands where the script looks and can be printed. -/
theorem ssr_config_iff (record : SsrRecord) (urlSafe padded : Bool) :
    (∀ tools : Tools, tools.Standard →
      ∃ config, convertSsr tools (record.url urlSafe padded) = some config ∧
        Reads (printSsr config) record.config.members) ↔ record.Legible := by
  have hprinted : ∀ tools : Tools, tools.Standard →
      ((∃ config, convertSsr tools (record.url urlSafe padded) = some config ∧
        Reads (printSsr config) record.config.members) ↔
      Shown record.server ∧ Js.isJsonNumber (record.port.map UInt8.toUInt16) = true ∧
        Spells (decoded tools (passwordText record.seen)) record.password.data ∧
        Shown record.method ∧ Shown record.obfs ∧
        Spells (lastValue tools (paramPieces record.seen) (ascii "obfsparam"))
          (record.valueOf (ascii "obfsparam")) ∧ Shown record.protocol ∧
        Spells (lastValue tools (paramPieces record.seen) (ascii "protoparam"))
          (record.valueOf (ascii "protoparam"))) := by
    intro tools htools
    simp only [convertSsr_eq record htools urlSafe padded, Option.some.injEq, exists_eq_left',
      reads_printSsr_iff, SsrRecord.config, spells_kept_iff, spellsNumber_kept_iff]
  rw [forall₂_congr hprinted]
  constructor
  · intro h
    obtain ⟨hserver, hport, -, hmethod, hobfs, -, hprotocol, -⟩ := h _ (adversary_standard [])
    refine ⟨?_, hport, ?_, ?_, ?_⟩
    · simp only [List.forall_mem_cons]
      exact ⟨hserver, hprotocol, hmethod, hobfs, by simp⟩
    · exact (conveys_iff _ _).mp fun tools htools => (h tools htools).2.2.1
    · exact (lastValue_iff _ _ _).mp fun tools htools => (h tools htools).2.2.2.2.2.1
    · exact (lastValue_iff _ _ _).mp fun tools htools => (h tools htools).2.2.2.2.2.2.2
  · rintro ⟨hfields, hport, hpassword, hobfs, hproto⟩ tools htools
    simp only [List.forall_mem_cons] at hfields
    obtain ⟨h₁, h₂, h₃, h₄, -⟩ := hfields
    exact ⟨h₁, hport, (conveys_iff _ _).mpr hpassword tools htools, h₃, h₄,
      (lastValue_iff _ _ _).mpr hobfs tools htools, h₂,
      (lastValue_iff _ _ _).mpr hproto tools htools⟩

/-- The parameter `obfsparam=YQ==`, with its padding. -/
def paddedParam : SsrParam := ⟨ascii "obfsparam", ascii "a", false, true⟩

/-- A record with this parameter and the password `p`. -/
def paddedRecord : SsrRecord where
  server := ascii "s"
  port := ascii "1"
  protocol := ascii "origin"
  method := ascii "none"
  obfs := ascii "plain"
  password := ⟨ascii "p", true, false⟩
  params := [paddedParam]
  colon_free := by decide
  password_end := by simp [ascii]

/-- The name is cut before the last `=`, so the parameter has another name. -/
theorem padded_value_lost : ¬ ∃ tools : Tools, tools.Standard ∧
    ∃ config, convertSsr tools (paddedRecord.url true false) = some config ∧
      Reads (printSsr config) paddedRecord.config.members := by
  rintro ⟨tools, htools, config, hconfig, hreads⟩
  rw [convertSsr_eq paddedRecord htools] at hconfig
  have hnamed : lastNamed paddedRecord.seen (ascii "obfsparam") = none := by decide +kernel
  have hlost : lastValue tools (paramPieces paddedRecord.seen) (ascii "obfsparam") = [] := by
    rw [lastValue, ← lastNamed, hnamed]
    rfl
  obtain ⟨-, -, -, -, -, hobfs, -⟩ := (reads_printSsr_iff _ _).mp hreads
  rw [← Option.some.inj hconfig, hlost, spells_nil_iff] at hobfs
  exact absurd hobfs (by decide)

end CodingLearners.ProxyScripts
