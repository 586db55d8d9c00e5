import CodingLearners.Library.Stringify
import CodingLearners.NettyChat.HttpAndWebSocketServer

/-!
# The messages of the page

The page sends `42["chat message",` with the message as `JSON.stringify` writes it,
and the handler takes the frame apart with a pattern. Its dots match no separator
U+0085, U+2028 or U+2029, and these are not escaped.
-/

namespace CodingLearners.NettyChat

open GreedyPattern Js

/-- What `socket.emit('chat message', input.value)` sends. -/
def chatFrame (message : JsString) : Text :=
  "42[\"chat message\",".toList ++ (stringify message ++ "]".toList)

/-- The handler finds the name of the event, and writes the frame to every channel. -/
structure Relayed (server : Server) (channel : Nat) (text : Text) : Prop where
  recognised : ∃ digits payload,
    find messagePattern text = some [digits, "chat message".toList, payload]
  everywhere : readFrame server channel (.text text) =
    server.wbschannels.map fun channel => .writeFrame channel (.text text)

/-- A line terminator that `JSON.stringify` leaves as it is. -/
def isSeparator (u : UInt16) : Bool := [0x85, 0x2028, 0x2029].contains u

def beforeSeparator (message : JsString) : JsString := message.takeWhile fun u => !isSeparator u

/-! ## The parts of a frame -/

theorem messagePattern_spells {matched : Text} {groups : List Text}
    (h : Spells messagePattern matched groups) :
    ∃ digits name payload, groups = [digits, name, payload] ∧
      matched = digits ++ '[' :: '"' :: (name ++ '"' :: ',' :: '"' :: (payload ++ ['"', ']'])) ∧
      payload ≠ [] ∧ ∀ c ∈ payload, isDot c = true := by
  simp only [messagePattern, List.cons_append, List.append_assoc, spells_run_iff,
    spells_literal_append_iff, spells_literal_iff] at h
  obtain ⟨digits, _, _, rfl, rfl, -, -, _, rfl, name, _, _, rfl, rfl, -, -, _, rfl, payload, _, _,
    rfl, rfl, hne, hdots, rfl, rfl⟩ := h
  exact ⟨digits, name, payload, rfl, rfl, hne, hdots⟩

theorem spells_chat {payload : Text} (hne : payload ≠ [])
    (hdots : ∀ c ∈ payload, isDot c = true) :
    Spells messagePattern
      ("42".toList ++ '[' :: '"' :: ("chat message".toList ++ '"' :: ',' :: '"' ::
        (payload ++ ['"', ']'])))
      ["42".toList, "chat message".toList, payload] := by
  simp only [messagePattern, List.cons_append, List.append_assoc, spells_run_iff,
    spells_literal_append_iff, spells_literal_iff]
  have hdigits : ∀ c ∈ "42".toList, c.isDigit = true := List.all_eq_true.mp rfl
  have hname : ∀ c ∈ "chat message".toList, isDot c = true := List.all_eq_true.mp rfl
  exact ⟨_, _, _, rfl, rfl, by decide, hdigits, _, rfl, _, _, _, rfl, rfl, by decide, hname,
    _, rfl, _, _, _, rfl, rfl, hne, hdots, rfl, rfl⟩

theorem chatFrame_eq (message : JsString) :
    chatFrame message = "42".toList ++ '[' :: '"' :: ("chat message".toList ++
      '"' :: ',' :: '"' :: (quoted message ++ ['"', ']'])) := by
  calc chatFrame message
      = ("42".toList ++ '[' :: '"' :: ("chat message".toList ++ ['"', ','])) ++
          (('"' :: (quoted message ++ ['"'])) ++ [']']) := rfl
    _ = "42".toList ++ '[' :: '"' :: ("chat message".toList ++
          '"' :: ',' :: '"' :: (quoted message ++ ['"', ']'])) := by
      simp only [List.append_assoc, List.cons_append, List.nil_append]

theorem not_between {message : JsString} {c : Char} (hc : c ≠ '\\') {before rest : Text}
    (hlong : 2 ≤ rest.length) : before ++ c :: '"' :: rest ≠ quoted message ++ ['"', ']'] :=
  fun h => pair_not_infix_quoted hc message (infix_of_append_eq h hlong)

/-- A bracket with a quote behind it stands at the start of a frame only. -/
theorem behind_bracket {message : JsString} {before rest : Text} (hlong : 2 ≤ rest.length)
    (h : before ++ '[' :: '"' :: rest = "42".toList ++ '[' :: '"' :: ("chat message".toList ++
      '"' :: ',' :: '"' :: (quoted message ++ ['"', ']']))) :
    rest = "chat message".toList ++ '"' :: ',' :: '"' :: (quoted message ++ ['"', ']']) := by
  obtain ⟨z, -, hopening⟩ := exists_append_of_notMem (by decide) h
  cases z with
  | nil => exact (List.cons.inj (List.cons.inj hopening).2).2
  | cons c z =>
      have hlater : z ++ '[' :: '"' :: rest =
          ('"' :: "chat message".toList ++ ['"', ',', '"']) ++ (quoted message ++ ['"', ']']) :=
        (List.cons.inj hopening).2.trans (by simp only [List.append_assoc, List.cons_append,
          List.nil_append])
      obtain ⟨y, -, hinside⟩ := exists_append_of_notMem (by decide) hlater
      exact absurd hinside (not_between (by decide) hlong)

/-- A comma between quotes stands behind the name of the event only. -/
theorem behind_comma {message : JsString} {name rest : Text} (hlong : 2 ≤ rest.length)
    (h : name ++ '"' :: ',' :: '"' :: rest =
      "chat message".toList ++ '"' :: ',' :: '"' :: (quoted message ++ ['"', ']'])) :
    name = "chat message".toList ∧ rest = quoted message ++ ['"', ']'] := by
  obtain ⟨z, rfl, hmark⟩ := exists_append_of_notMem (by decide) h
  rcases z with _ | ⟨c, _ | ⟨d, z⟩⟩
  · refine ⟨List.append_nil _, ?_⟩
    exact (List.cons.inj (List.cons.inj (List.cons.inj hmark).2).2).2
  · simp at hmark
  · have hlater : z ++ '"' :: ',' :: '"' :: rest = '"' :: (quoted message ++ ['"', ']']) :=
      (List.cons.inj (List.cons.inj hmark).2).2
    cases z with
    | nil =>
        have hinside : [] ++ ',' :: '"' :: rest = quoted message ++ ['"', ']'] :=
          (List.cons.inj hlater).2
        exact absurd hinside (not_between (by decide) hlong)
    | cons e z =>
        have hinside : (z ++ ['"']) ++ ',' :: '"' :: rest = quoted message ++ ['"', ']'] := by
          simpa using (List.cons.inj hlater).2
        exact absurd hinside (not_between (by decide) hlong)

/-- A frame is spelled out in one way only. -/
theorem name_of_spells {message : JsString} {before matched rest : Text} {groups : List Text}
    (hframe : chatFrame message = before ++ (matched ++ rest))
    (h : Spells messagePattern matched groups) :
    ∃ digits payload, groups = [digits, "chat message".toList, payload] ∧
      payload ≠ [] ∧ (∀ c ∈ payload, isDot c = true) ∧
      payload ++ '"' :: ']' :: rest = quoted message ++ ['"', ']'] := by
  obtain ⟨digits, name, payload, rfl, rfl, hne, hdots⟩ := messagePattern_spells h
  have hwhole : (before ++ digits) ++ '[' :: '"' :: (name ++ '"' :: ',' :: '"' ::
      (payload ++ '"' :: ']' :: rest)) = "42".toList ++ '[' :: '"' :: ("chat message".toList ++
        '"' :: ',' :: '"' :: (quoted message ++ ['"', ']'])) := by
    rw [← chatFrame_eq, hframe]
    simp
  have hparts := behind_bracket (by simp; omega) hwhole
  obtain ⟨rfl, hpayload⟩ := behind_comma (by simp; omega) hparts
  exact ⟨digits, payload, rfl, hne, hdots, hpayload⟩

/-! ## Dots and separators -/

/-- No unit of the symbol is a separator. -/
def isKept (x : Symbol) : Bool := x.units.all fun u => !isSeparator u

theorem separator_cases {u : UInt16} (h : isSeparator u = true) :
    u = 0x85 ∨ u = 0x2028 ∨ u = 0x2029 := by
  simpa [isSeparator] using h

/-- A separator is a symbol of its own. -/
theorem exists_separator {x : Symbol} (h : isKept x = false) :
    ∃ u, isSeparator u = true ∧ x = .scalar (Char.ofNat u.toNat) ∧ x.units = [u] ∧
      x.quote = [Char.ofNat u.toNat] ∧ isDot (Char.ofNat u.toNat) = false := by
  obtain ⟨u, hmem, hu⟩ := List.all_eq_false.mp h
  have hseparator : isSeparator u = true := by simpa using hu
  rcases separator_cases hseparator with rfl | rfl | rfl
  all_goals
    obtain rfl := (mem_units_iff rfl rfl).mp hmem
    exact ⟨_, hseparator, rfl, units_scalar rfl rfl, rfl, rfl⟩

theorem terminator_cases {c : Char} (h : isDot c = false) :
    c = '\n' ∨ c = '\r' ∨ c = '\u0085' ∨ c = '\u2028' ∨ c = '\u2029' := by
  simpa only [isDot, Bool.not_eq_false', List.contains_iff_mem, List.mem_cons, List.not_mem_nil,
    or_false] using h

theorem isDot_of_isAlphanum {c : Char} (h : c.isAlphanum = true) : isDot c = true := by
  cases hdot : isDot c with
  | true => rfl
  | false =>
      rcases terminator_cases hdot with rfl | rfl | rfl | rfl | rfl <;> exact absurd h (by decide)

/-- A line terminator is escaped or a separator. -/
theorem isDot_of_printable {c : Char} (hprintable : 32 ≤ c.toNat)
    (hkept : isKept (.scalar c) = true) : isDot c = true := by
  cases hdot : isDot c with
  | true => rfl
  | false =>
      rcases terminator_cases hdot with rfl | rfl | rfl | rfl | rfl
      · exact absurd hprintable (by decide)
      · exact absurd hprintable (by decide)
      all_goals exact absurd hkept (by decide)

theorem isDot_quote {x : Symbol} (h : isKept x = true) : ∀ c ∈ x.quote, isDot c = true := by
  have hspec := quote_spec x
  generalize x.quote = q at hspec
  cases hspec with
  | plain printable noMark noBackslash => simpa using isDot_of_printable printable h
  | mark => exact List.all_eq_true.mp rfl
  | escape special ascii =>
      rw [List.forall_mem_cons]
      refine ⟨rfl, fun c hc => ?_⟩
      cases ascii c hc with
      | inl halpha => exact isDot_of_isAlphanum halpha
      | inr hback => exact hback ▸ rfl

/-- The dots match the text up to the first separator. -/
theorem takeWhile_isDot_quoted (message : JsString) :
    (quoted message).takeWhile isDot =
      ((symbols message).takeWhile isKept).flatMap Symbol.quote := by
  apply takeWhile_flatMap
  · exact fun x hx => isDot_quote hx
  · intro x hx
    obtain ⟨u, -, -, -, hquote, hdot⟩ := exists_separator hx
    exact ⟨_, [], hquote, hdot⟩

theorem beforeSeparator_eq (message : JsString) :
    beforeSeparator message = ((symbols message).takeWhile isKept).flatMap Symbol.units := by
  conv_lhs => rw [beforeSeparator, ← flatMap_symbols message]
  apply takeWhile_flatMap
  · exact fun x hx => List.all_eq_true.mp hx
  · intro x hx
    obtain ⟨u, hseparator, -, hunits, -⟩ := exists_separator hx
    exact ⟨u, [], hunits, by simp [hseparator]⟩

theorem forall_isDot_quoted_iff (message : JsString) :
    (∀ c ∈ quoted message, isDot c = true) ↔ ∀ u ∈ message, isSeparator u = false := by
  have hsymbol : ∀ x : Symbol, (∀ c ∈ x.quote, isDot c = true) ↔
      ∀ u ∈ x.units, isSeparator u = false := by
    intro x
    cases hx : isKept x with
    | true => exact iff_of_true (isDot_quote hx) (by simpa [isKept] using hx)
    | false =>
        obtain ⟨u, hseparator, -, hunits, hquote, hdot⟩ := exists_separator hx
        simp [hunits, hquote, hdot, hseparator]
  conv_rhs => rw [← flatMap_symbols message]
  simp only [quoted, List.forall_mem_flatMap, hsymbol]

theorem quoted_ne_nil {message : JsString} (h : message ≠ []) : quoted message ≠ [] := by
  intro hnil
  apply h
  rw [← flatMap_symbols message]
  rw [quoted, List.flatMap_eq_nil_iff] at hnil
  rw [List.flatMap_eq_nil_iff]
  exact fun x hx => absurd (hnil x hx) (quote_spec x).ne_nil

/-- The second run can be matched exactly if no separator is in its way. -/
theorem exists_payload_iff {message : JsString} (hmessage : message ≠ []) :
    (∃ payload rest, payload ≠ [] ∧ (∀ c ∈ payload, isDot c = true) ∧
        payload ++ '"' :: ']' :: rest = quoted message ++ ['"', ']']) ↔
      (∀ u ∈ message, isSeparator u = false) ∨ [34, 93] <:+: beforeSeparator message := by
  have hfirst : (quoted message).head? ≠ some '"' :=
    head?_flatMap_ne fun x => (quote_spec x).head?_ne_mark
  have hinside : ['"', ']'] <:+: (quoted message).takeWhile isDot ↔
      [34, 93] <:+: beforeSeparator message := by
    rw [takeWhile_isDot_quoted, beforeSeparator_eq]
    exact mark_infix_iff (u := 93) rfl rfl ⟨by decide, by decide, by decide⟩ _
  rw [← forall_isDot_quoted_iff, ← hinside]
  constructor
  · rintro ⟨payload, rest, -, hdots, heq⟩
    exact run_cases (by decide) rfl rfl hdots heq
  · rintro (hdots | hmarks)
    · exact ⟨quoted message, [], quoted_ne_nil hmessage, hdots, rfl⟩
    · exact exists_run hfirst hmarks

/-! ## Relaying -/

theorem relayed_iff {server : Server} {channel : Nat} {message : JsString} :
    Relayed server channel (chatFrame message) ↔
      (find messagePattern (chatFrame message)).isSome = true := by
  constructor
  · rintro ⟨⟨digits, payload, hfind⟩, -⟩
    rw [hfind]
    rfl
  · intro hsome
    obtain ⟨groups, hfind⟩ := Option.isSome_iff_exists.mp hsome
    obtain ⟨before, matched, rest, hframe, hspells⟩ := find_spells hfind
    obtain ⟨digits, payload, rfl, -⟩ := name_of_spells hframe hspells
    have hprobe : chatFrame message ≠ "2probe".toList := by
      rw [chatFrame_eq]
      exact fun h => absurd (List.cons.inj h).1 (by decide)
    have hchat : isChatMessage (chatFrame message) = true := by
      simp only [isChatMessage, hfind, Bool.and_eq_true, bne_iff_ne]
      exact ⟨hprobe, rfl⟩
    exact ⟨⟨digits, payload, hfind⟩, by rw [readFrame, if_neg hprobe, if_pos hchat]⟩

/-- A message of the page is relayed exactly if it has no separator, or has a quote
with a bracket behind it before the first one. -/
theorem chatFrame_relayed_iff (server : Server) (channel : Nat) {message : JsString}
    (hmessage : message ≠ []) :
    Relayed server channel (chatFrame message) ↔
      (∀ u ∈ message, isSeparator u = false) ∨
        units "\"]" <:+: beforeSeparator message := by
  have hunits : units "\"]" = [34, 93] := rfl
  rw [hunits, relayed_iff, find_isSome_iff, ← exists_payload_iff hmessage]
  constructor
  · rintro ⟨before, matched, rest, groups, hframe, hspells⟩
    obtain ⟨digits, payload, -, hne, hdots, heq⟩ := name_of_spells hframe hspells
    exact ⟨payload, rest, hne, hdots, heq⟩
  · rintro ⟨payload, rest, hne, hdots, heq⟩
    refine ⟨[], _, rest, _, ?_, spells_chat hne hdots⟩
    rw [chatFrame_eq, ← heq]
    simp only [List.append_assoc, List.cons_append, List.nil_append]

theorem comma_relayed : Relayed ⟨[], [0, 1], 2⟩ 0 (chatFrame (units ",")) :=
  (@chatFrame_relayed_iff ⟨[], [0, 1], 2⟩ 0 (units ",") (by decide)).mpr
    (Or.inl (by simp [units, isSeparator]))

theorem separator_not_relayed :
    isChatMessage (chatFrame [97, 0x2028, 98]) = false ∧
      readFrame ⟨[], [0, 1], 2⟩ 0 (.text (chatFrame [97, 0x2028, 98])) = [] ∧
      isChatMessage (chatFrame [97, 98]) = true := by
  decide +kernel

end CodingLearners.NettyChat
