import FaultRelay.Host
import FaultRelay.Proofs.Encoding
import FaultRelay.Scenario.Application
import Mathlib.Data.List.DropRight
import Mathlib.Data.List.Forall2

/-! The grammar of the environment variable. Diagnostics are switched off by a word, in any mix of
cases, between white space. A replacement character is neither white space nor a letter of such a
word, so bytes that are not well formed switch nothing off. -/
namespace FaultRelay

namespace Text

def whiteSpace : List Char :=
  ['\t', '\n', '\x0b', '\x0c', '\r', ' ', '\u0085', '\u00a0', '\u1680', '\u2000', '\u2001',
    '\u2002', '\u2003', '\u2004', '\u2005', '\u2006', '\u2007', '\u2008', '\u2009', '\u200a',
    '\u2028', '\u2029', '\u202f', '\u205f', '\u3000']

theorem isBlank_iff {c : Char} : isBlank c = true ↔ c ∈ whiteSpace := by
  have code : ∀ other : Char, c = other ↔ c.toNat = other.toNat := fun other =>
    Char.toNat_inj.symm
  simp only [whiteSpace, List.mem_cons, List.not_mem_nil, or_false, code]
  simp only [isBlank, Bool.or_eq_true, Bool.and_eq_true, decide_eq_true_eq]
  simp only [Char.reduceToNat]
  omega

theorem trim_eq (text : List Char) : trim text = (trimStart text).rdropWhile isBlank := rfl

theorem trim_split (text : List Char) : ∃ before after,
    text = before ++ trim text ++ after ∧ (∀ c ∈ before, isBlank c = true) ∧
      ∀ c ∈ after, isBlank c = true := by
  refine ⟨text.takeWhile isBlank, (trimStart text).rtakeWhile isBlank, ?_, ?_, ?_⟩
  · rw [trim_eq, List.append_assoc, List.rdropWhile_append_rtakeWhile, trimStart,
      List.takeWhile_append_dropWhile]
  · exact fun c => List.mem_takeWhile_imp
  · exact fun c => List.mem_rtakeWhile_imp

theorem trimStart_between {before word after : List Char} (nonempty : word ≠ [])
    (blank : ∀ c ∈ before, isBlank c = true) (solid : ∀ c ∈ word, isBlank c = false) :
    trimStart (before ++ word ++ after) = word ++ after := by
  obtain ⟨first, rest, rfl⟩ := List.exists_cons_of_ne_nil nonempty
  rw [trimStart, List.append_assoc, List.dropWhile_append_of_pos blank, List.cons_append,
    List.dropWhile_cons_of_neg (by simp [solid])]

/-- A word without blanks is all that trimming leaves of it between blanks. -/
theorem trim_between {before word after : List Char} (nonempty : word ≠ [])
    (blank : ∀ c ∈ before, isBlank c = true) (blank' : ∀ c ∈ after, isBlank c = true)
    (solid : ∀ c ∈ word, isBlank c = false) : trim (before ++ word ++ after) = word := by
  have ended : trimStart (after.reverse ++ word.reverse ++ []) = word.reverse ++ [] :=
    trimStart_between (by simpa using nonempty) (by simpa using blank') (by simpa using solid)
  rw [List.append_nil, List.append_nil] at ended
  rw [trim, trimStart_between nonempty blank solid, List.reverse_append, ended, List.reverse_reverse]

end Text

namespace Settings

def AnyCase (word : String) (text : List Char) : Prop :=
  List.Forall₂ (fun letter c => c = letter ∨ c = letter.toUpper) word.toList text

theorem toNat_toLower (c : Char) :
    c.toLower.toNat = if 65 ≤ c.toNat ∧ c.toNat ≤ 90 then c.toNat + 32 else c.toNat := by
  have upper : ('A'.val ≤ c.val ∧ c.val ≤ 'Z'.val) ↔ (65 ≤ c.toNat ∧ c.toNat ≤ 90) := .rfl
  delta Char.toLower
  simp only [ge_iff_le, upper]
  split
  · rename_i within
    have bounds : 65 ≤ c.val.toNat ∧ c.val.toNat ≤ 90 := within
    change (c.val + 32).toNat = c.val.toNat + 32
    rw [UInt32.toNat_add, show (32 : UInt32).toNat = 32 from rfl]
    omega
  · rfl

theorem toNat_toUpper (c : Char) :
    c.toUpper.toNat = if 97 ≤ c.toNat ∧ c.toNat ≤ 122 then c.toNat - 32 else c.toNat := by
  have lower : ('a'.val ≤ c.val ∧ c.val ≤ 'z'.val) ↔ (97 ≤ c.toNat ∧ c.toNat ≤ 122) := .rfl
  delta Char.toUpper
  simp only [lower]
  split
  · rename_i within
    have bounds : 97 ≤ c.val.toNat ∧ c.val.toNat ≤ 122 := within
    change (c.val + ('A'.val - 'a'.val)).toNat = c.val.toNat - 32
    -- the difference wraps around
    rw [UInt32.toNat_add, show ('A'.val - 'a'.val).toNat = 4294967264 from rfl]
    omega
  · rfl

theorem toLower_eq_iff {letter c : Char} (lower : letter.isUpper = false) :
    c.toLower = letter ↔ c = letter ∨ c = letter.toUpper := by
  have plain : ¬(65 ≤ letter.toNat ∧ letter.toNat ≤ 90) := of_decide_eq_false lower
  simp only [← Char.toNat_inj, toNat_toLower, toNat_toUpper]
  split <;> split <;> omega

theorem sameWord_iff {word : String} {text : List Char}
    (lower : ∀ letter ∈ word.toList, letter.isUpper = false) :
    sameWord word text = true ↔ AnyCase word text := by
  unfold sameWord AnyCase
  rw [beq_iff_eq]
  generalize word.toList = letters at lower
  induction text generalizing letters with
  | nil => simp [eq_comm]
  | cons c rest ih =>
      cases letters with
      | nil => simp
      | cons letter letters =>
          obtain ⟨own, others⟩ := List.forall_mem_cons.1 lower
          rw [List.map_cons, List.cons.injEq, toLower_eq_iff own, ih letters others,
            List.forall₂_cons]

def offWords : List String := ["0", "off", "false"]

/-- A word that switches the diagnostics off, between white space. -/
def SwitchesOff (text : List Char) : Prop :=
  ∃ before spelled after, text = before ++ spelled ++ after ∧
    (∀ c ∈ before, c ∈ Text.whiteSpace) ∧ (∀ c ∈ after, c ∈ Text.whiteSpace) ∧
    ∃ word ∈ offWords, AnyCase word spelled

theorem disables_iff {text : List Char} :
    disables text = true ↔ ∃ word ∈ offWords, AnyCase word text := by
  have lower : ∀ word ∈ offWords, ∀ letter ∈ word.toList, letter.isUpper = false := by
    simp [offWords]
  have iff : ∀ word ∈ offWords, sameWord word text = true ↔ AnyCase word text :=
    fun word listed => sameWord_iff (lower word listed)
  rw [disables, Bool.or_eq_true, Bool.or_eq_true]
  simp only [offWords, List.forall_mem_cons] at iff
  rw [iff.1, iff.2.1, iff.2.2.1, or_assoc]
  simp [offWords]

theorem AnyCase.forall_mem {word : String} {text : List Char} {holds : Char → Prop}
    (spelled : AnyCase word text)
    (letters : ∀ letter ∈ word.toList, holds letter ∧ holds letter.toUpper) :
    ∀ c ∈ text, holds c := by
  unfold AnyCase at spelled
  generalize word.toList = cased at *
  induction spelled with
  | nil => simp
  | cons same _ ih =>
      obtain ⟨own, others⟩ := List.forall_mem_cons.1 letters
      rw [List.forall_mem_cons]
      refine ⟨?_, ih others⟩
      obtain rfl | rfl := same
      exacts [own.1, own.2]

theorem solid_of_anyCase {word : String} (listed : word ∈ offWords) {text : List Char}
    (spelled : AnyCase word text) :
    text ≠ [] ∧ (∀ c ∈ text, Text.isBlank c = false) ∧ ∀ c ∈ text, c ≠ Text.replacement := by
  have letters : ∀ word ∈ offWords, word.toList ≠ [] ∧
      (∀ letter ∈ word.toList, Text.isBlank letter = false ∧ Text.isBlank letter.toUpper = false) ∧
      ∀ letter ∈ word.toList, letter ≠ Text.replacement ∧ letter.toUpper ≠ Text.replacement := by
    simp [offWords, Text.isBlank, Text.replacement]
  obtain ⟨nonempty, dark, sound⟩ := letters word listed
  refine ⟨?_, spelled.forall_mem dark, spelled.forall_mem sound⟩
  rintro rfl
  exact nonempty (List.forall₂_nil_right_iff.1 spelled)

theorem disables_trim_iff {text : List Char} :
    disables (Text.trim text) = true ↔ SwitchesOff text := by
  rw [disables_iff]
  constructor
  · rintro ⟨word, listed, spelled⟩
    obtain ⟨before, after, split, blank, blank'⟩ := Text.trim_split text
    exact ⟨before, _, after, split, fun c inside => Text.isBlank_iff.1 (blank c inside),
      fun c inside => Text.isBlank_iff.1 (blank' c inside), word, listed, spelled⟩
  · rintro ⟨before, spelled, after, rfl, blank, blank', word, listed, spells⟩
    obtain ⟨nonempty, solid, -⟩ := solid_of_anyCase listed spells
    rw [Text.trim_between nonempty (fun c inside => Text.isBlank_iff.2 (blank c inside))
      (fun c inside => Text.isBlank_iff.2 (blank' c inside)) solid]
    exact ⟨word, listed, spells⟩

/-- Where a text switches off, no part of it was replaced. -/
theorem replacement_notMem {text : List Char} (off : SwitchesOff text) :
    Text.replacement ∉ text := by
  obtain ⟨before, spelled, after, rfl, blank, blank', word, listed, spells⟩ := off
  have solid := (solid_of_anyCase listed spells).2.2
  have dark : Text.replacement ∉ Text.whiteSpace := by decide
  rw [List.mem_append, List.mem_append]
  rintro ((inside | inside) | inside)
  · exact dark (blank _ inside)
  · exact solid _ inside rfl
  · exact dark (blank' _ inside)

/-- Bytes switch the diagnostics off where they encode a text that does, and nowhere else. -/
theorem ofVariable_some_iff {bytes : List UInt8} :
    (ofVariable (some bytes)).diagnostics = false ↔
      ∃ text, bytes.toByteArray = text.utf8Encode ∧ SwitchesOff text := by
  rw [ofVariable, Bool.not_eq_false', disables_trim_iff]
  constructor
  · intro off
    refine ⟨Text.decode bytes, ?_, off⟩
    rw [List.utf8Encode, Text.encode_decode (replacement_notMem off)]
  · rintro ⟨text, encoded, off⟩
    rw [List.toByteArray_inj.1 encoded, Text.decode_encode]
    exact off

theorem fromEnvironment_apply {V : Vocabulary} {σ : Type} (world : World V σ) :
    fromEnvironment world = (ofVariable world.process.environment, world) := rfl

/-- Reading the environment changes nothing. The diagnostics are off exactly if the variable is set
to well-formed bytes of a word that switches off, between white space; bytes that are ill-formed in
any place leave them on, and so does a variable that is not set. -/
theorem environment_is_read_by_its_grammar {V : Vocabulary} {σ : Type} (world : World V σ) :
    (fromEnvironment world).2 = world ∧
      ((fromEnvironment world).1.diagnostics = false ↔ ∃ bytes text,
        world.process.environment = some bytes ∧ bytes.toByteArray = text.utf8Encode ∧
          SwitchesOff text) ∧
      (∀ bytes, world.process.environment = some bytes → ¬bytes.toByteArray.IsValidUTF8 →
        (fromEnvironment world).1.diagnostics = true) ∧
      (world.process.environment = none → (fromEnvironment world).1.diagnostics = true) := by
  rw [fromEnvironment_apply]
  refine ⟨rfl, ?_, ?_, ?_⟩
  · cases world.process.environment with
    | none => simp [ofVariable_none, default]
    | some bytes => simp [ofVariable_some_iff]
  · intro bytes set ill
    rw [set, ← Bool.not_eq_false, ofVariable_some_iff]
    rintro ⟨text, encoded, -⟩
    exact ill ⟨text, encoded⟩
  · intro unset
    rw [unset, ofVariable_none, default]

def worldWith (bytes : List UInt8) : World Scenario.application Unit :=
  ⟨⟨0, none, some bytes⟩, .fresh _, ()⟩

/-- A word between a no-break space and a line feed switches off; an overlong zero does not. -/
theorem spaced_word_is_read :
    (fromEnvironment (worldWith [0xC2, 0xA0, 0x6F, 0x46, 0x66, 0x0A])).1.diagnostics = false ∧
      (fromEnvironment (worldWith [0xC0, 0xB0])).1.diagnostics = true := by
  constructor
  · refine (environment_is_read_by_its_grammar (worldWith _)).2.1.2
      ⟨_, ['\u00a0', 'o', 'F', 'f', '\n'], rfl, by decide, ['\u00a0'], ['o', 'F', 'f'], ['\n'], rfl,
        by simp [Text.whiteSpace], by simp [Text.whiteSpace], "off", by simp [offWords], ?_⟩
    simp [AnyCase]
  · exact (environment_is_read_by_its_grammar (worldWith _)).2.2.1 _ rfl (by decide)

end Settings

end FaultRelay
