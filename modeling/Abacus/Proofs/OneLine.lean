import Abacus.Proofs.Encoding
import Abacus.Proofs.Figures
import Abacus.Proofs.Pieces
import Abacus.Session.Sink
import Mathlib

/-!
Texts that stay on one line.

Quotes escape newlines, and numbers are written with digits and a few marks. So what a format makes of a number has no
newline in it unless the format itself has one.
-/

namespace Abacus

/-- The string has no newline in it. -/
def OneLine (s : String) : Prop :=
  '\n' ∉ s.toList

instance (s : String) : Decidable (OneLine s) :=
  inferInstanceAs (Decidable ('\n' ∉ s.toList))

theorem oneLine_append {s t : String} : OneLine (s ++ t) ↔ OneLine s ∧ OneLine t := by
  simp [OneLine, not_or]

theorem OneLine.append {s t : String} (first : OneLine s) (second : OneLine t) : OneLine (s ++ t) :=
  oneLine_append.mpr ⟨first, second⟩

theorem oneLine_ofList {chars : List Char} : OneLine (String.ofList chars) ↔ '\n' ∉ chars := by
  simp [OneLine]

theorem oneLine_ite {p : Prop} [Decidable p] {s t : String} (first : OneLine s) (second : OneLine t) :
    OneLine (if p then s else t) := by
  split
  · exact first
  · exact second

theorem oneLine_intercalate {between : String} {parts : List String} (between_ok : OneLine between)
    (parts_ok : ∀ part ∈ parts, OneLine part) : OneLine (between.intercalate parts) := by
  induction parts with
  | nil => exact List.not_mem_nil
  | cons first others ih =>
    obtain ⟨first_ok, others_ok⟩ := List.forall_mem_cons.mp parts_ok
    cases others with
    | nil => rwa [String.intercalate_singleton]
    | cons second others =>
      rw [String.intercalate_cons_cons]
      exact (first_ok.append between_ok).append (ih others_ok)

theorem Figures.oneLine {s : String} (figures : Figures s) : OneLine s :=
  fun inside => absurd (figures '\n' inside) (by decide)

theorem oneLine_intRepr (n : Int) : OneLine n.repr :=
  (figures_intRepr n).oneLine

namespace Text

theorem newline_not_mem_hexDigits (width n : Nat) : '\n' ∉ hexDigits width n := by
  rw [hexDigits, List.mem_append, List.mem_replicate]
  rintro (⟨-, zero⟩ | digit)
  · cases zero
  · exact absurd (isFigure_of_mem_toDigits digit) (by decide)

theorem newline_ne_shortEscape? {c letter : Char} (short : shortEscape? c = some letter) : '\n' ≠ letter := by
  unfold shortEscape? at short
  split at short <;> cases short <;> decide

/-- A newline is not printable, and escapes are made of letters and digits. -/
theorem newline_not_mem_escapeChar {mark : Char} (mark_ok : '\n' ≠ mark) (c : Char) : '\n' ∉ escapeChar mark c := by
  unfold escapeChar
  split
  · rename_i escaped
    have visible : '\n' ≠ c := by
      rcases escaped with rfl | rfl
      · exact mark_ok
      · decide
    simp [visible]
  split
  · rename_i printable
    rw [List.mem_singleton]
    rintro rfl
    cases printable
  split
  · rename_i letter short
    simp [newline_ne_shortEscape? short]
  · split
    · simp [newline_not_mem_hexDigits]
    split <;> simp [newline_not_mem_hexDigits]

theorem newline_not_mem_escape {mark : Char} (mark_ok : '\n' ≠ mark) (s : Symbol) : '\n' ∉ escape mark s := by
  cases s with
  | char c => exact newline_not_mem_escapeChar mark_ok c
  | stray b => simp [escape, newline_not_mem_hexDigits]

theorem oneLine_quote (t : Text) : OneLine t.quote := by
  rw [quote, oneLine_ofList]
  have mark_ok : '\n' ≠ doubleMark := by decide
  simp only [List.mem_cons, List.mem_append, List.mem_flatMap, List.not_mem_nil, or_false, not_or, mark_ok,
    not_false_eq_true, true_and]
  rintro ⟨s, -, inside⟩
  exact newline_not_mem_escape mark_ok s inside

theorem oneLine_quoteString (s : String) : OneLine (quoteString s) :=
  oneLine_quote _

end Text

theorem Number.oneLine_text (style : Style) (places : Option Nat) (x : Number) : OneLine (x.text style places) :=
  (x.figures_text style places).oneLine

namespace Format

variable (f : Field)

namespace Field

theorem oneLine_fill {c : Char} (c_ok : '\n' ≠ c) (length : Nat) : OneLine (f.fill length c) := by
  rw [fill, oneLine_ofList, List.mem_replicate]
  exact fun inside => c_ok inside.2

theorem oneLine_pad {text : String} (text_ok : OneLine text) : OneLine (f.pad text) := by
  have filled : '\n' ≠ if f.flags.zero then '0' else ' ' := by split <;> decide
  exact oneLine_ite (text_ok.append (f.oneLine_fill (by decide) _)) ((f.oneLine_fill filled _).append text_ok)

theorem oneLine_cut {text : String} (text_ok : OneLine text) : OneLine (f.cut text) := by
  unfold cut
  split
  · exact f.oneLine_pad (oneLine_ofList.mpr (mt List.mem_of_mem_take text_ok))
  · exact f.oneLine_pad text_ok

end Field

theorem oneLine_naturalText (n : Nat) : OneLine (naturalText f n) :=
  oneLine_ite (f.figures_integer (by decide) _ _ _).oneLine (f.figures_integer (by decide) _ _ _).oneLine

theorem oneLine_wordsText (ws : List Nat) : OneLine (wordsText f ws) := by
  have words : ∀ text ∈ ws.map (naturalText f), OneLine text :=
    List.forall_mem_map.mpr fun n _ => oneLine_naturalText f n
  have spaced : OneLine (" ".intercalate (ws.map (naturalText f))) := oneLine_intercalate (by decide) words
  have listed : OneLine (", ".intercalate (ws.map (naturalText f))) := oneLine_intercalate (by decide) words
  refine oneLine_ite (.append (.append (by decide) spaced) (by decide)) (oneLine_ite (by decide) ?_)
  exact .append (.append (by decide) listed) (by decide)

theorem Part.oneLine_text (part : Part) : OneLine (part.text f) := by
  cases part with
  | natural n => exact oneLine_naturalText f n
  | integer z => exact (f.figures_integer (by decide) _ _ _).oneLine
  | truth b => exact f.oneLine_pad (oneLine_ite (by decide) (by decide))
  | words ws => exact oneLine_wordsText f ws

theorem oneLine_recordText (x : Number) (rounding : Ordering) : OneLine (recordText f x rounding) := by
  have names : ∀ part ∈ parts x rounding, OneLine part.1 := by
    simp only [parts, List.forall_mem_cons, List.not_mem_nil, false_implies, implies_true, and_true]
    decide
  have head : OneLine ("&" ++ (if f.flags.sharp then "big.Float" else "")) :=
    .append (by decide) (oneLine_ite (by decide) (by decide))
  refine .append (.append (head.append (by decide)) ?_) (by decide)
  refine oneLine_intercalate (oneLine_ite (by decide) (by decide)) (List.forall_mem_map.mpr fun part inside => ?_)
  exact (oneLine_ite ((names part inside).append (by decide)) (by decide)).append (part.2.oneLine_text _)

theorem oneLine_markStart {verb : Char} (verb_ok : '\n' ≠ verb) : OneLine (String.ofList ['%', '!', verb]) := by
  rw [oneLine_ofList]
  simp [verb_ok]

theorem oneLine_badVerbText {verb : Char} (verb_ok : '\n' ≠ verb) {operand : String} (operand_ok : OneLine operand) :
    OneLine (badVerbText verb operand) := by
  have marked := oneLine_markStart verb_ok
  exact .append (.append (.append (.append (marked.append (by decide)) (by decide)) (by decide)) operand_ok) (by decide)

theorem oneLine_conversionText {verb : Char} (verb_ok : '\n' ≠ verb) (style : Style) (field : Field) (x : Number) :
    OneLine (conversionText verb style field x) := by
  unfold conversionText
  split
  · exact (figures_numberText field style x).oneLine
  · exact (((oneLine_markStart verb_ok).append (by decide)).append (by decide)).append (by decide)

end Format

namespace Text

variable {t u : Text}

/-- The text has no newline in it, and none among its stray bytes. -/
def OneLine (t : Text) : Prop :=
  Sink.newline ∉ t.toBytes

theorem oneLine_nil : OneLine [] :=
  List.not_mem_nil

theorem OneLine.append (first : t.OneLine) (second : u.OneLine) : OneLine (t ++ u) := by
  rw [OneLine, toBytes, List.flatMap_append]
  exact List.not_mem_append first second

theorem oneLine_flatMap {α : Type} {xs : List α} {f : α → Text} (each : ∀ x ∈ xs, (f x).OneLine) :
    OneLine (xs.flatMap f) := by
  induction xs with
  | nil => exact oneLine_nil
  | cons x xs ih =>
    obtain ⟨first, others⟩ := List.forall_mem_cons.mp each
    rw [List.flatMap_cons]
    exact first.append (ih others)

theorem OneLine.mono (ok : t.OneLine) (part : u ⊆ t) : u.OneLine := by
  rw [OneLine, toBytes, List.mem_flatMap] at ok ⊢
  rintro ⟨s, inside, byte⟩
  exact ok ⟨s, part inside, byte⟩

theorem newline_mem_bytes_iff {c : Char} : Sink.newline ∈ (Symbol.char c).bytes ↔ c = '\n' := by
  rw [Symbol.bytes, mem_utf8EncodeChar_iff (by decide)]
  exact ⟨fun same => Char.toNat_inj.mp same, fun same => same ▸ rfl⟩

theorem oneLine_ofString {s : String} : (ofString s).OneLine ↔ Abacus.OneLine s := by
  rw [OneLine, Abacus.OneLine, toBytes, ofString, List.mem_flatMap]
  refine not_congr ⟨?_, fun inside => ?_⟩
  · rintro ⟨_, inside, byte⟩
    obtain ⟨c, c_inside, rfl⟩ := List.mem_map.mp inside
    rwa [← newline_mem_bytes_iff.mp byte]
  · exact ⟨_, List.mem_map_of_mem inside, newline_mem_bytes_iff.mpr rfl⟩

/-- No symbol of a text on one line reads as a newline. -/
theorem OneLine.toChar_ne (ok : t.OneLine) {s : Symbol} (inside : s ∈ t) : '\n' ≠ s.toChar := by
  cases s with
  | char c =>
    rintro rfl
    exact ok (List.mem_flatMap.mpr ⟨_, inside, newline_mem_bytes_iff.mpr rfl⟩)
  | stray b =>
    change '\n' ≠ Char.ofNat 0xFFFD
    decide

end Text

namespace Format

variable {text : List Symbol} {piece : Piece}

/-- The piece writes no newline, whatever the number. -/
def Piece.Plain (piece : Piece) : Prop :=
  ∀ x rounding, (piece.render x rounding).OneLine

theorem plain_mark {text : String} (ok : Abacus.OneLine text) : (Piece.mark text).Plain :=
  fun _ _ => Text.oneLine_ofString.mpr ok

theorem plain_verbMark {verb : Char} (verb_ok : '\n' ≠ verb) {what : String} (what_ok : Abacus.OneLine what) :
    (verbMark verb what).Plain :=
  plain_mark ((((oneLine_markStart verb_ok).append (by decide)).append what_ok).append (by decide))

theorem plain_pieceOf {verb : Char} (verb_ok : '\n' ≠ verb) (field : Field) : (pieceOf verb field).Plain := by
  intro x rounding
  unfold pieceOf
  split
  · exact Text.oneLine_ofString.mpr (oneLine_conversionText verb_ok _ field x)
  · exact Text.oneLine_ofString.mpr (field.oneLine_cut (by decide))
  · exact Text.oneLine_ofString.mpr (field.figures_integer (figures_ite (by decide) (by decide)) _ _ _).oneLine
  · exact Text.oneLine_ofString.mpr (oneLine_badVerbText (by decide) (oneLine_recordText field x rounding))
  · exact Text.oneLine_ofString.mpr (oneLine_badVerbText verb_ok (x.oneLine_text _ _))

/-- The pieces of a format on one line write no newline. A verb may show in a mark, so it must not be one. -/
theorem Reading.plain (reading : Reading text piece) (ok : Text.OneLine text) : piece.Plain := by
  cases reading with
  | @literal s inside => exact fun _ _ => ok.mono (List.cons_subset.mpr ⟨inside, List.nil_subset _⟩)
  | percent =>
    intro x rounding
    exact Text.oneLine_ofString.mpr (show Abacus.OneLine "%" by decide)
  | verb inside field => exact plain_pieceOf (ok.toChar_ne inside) field
  | badIndex inside | missing inside => exact plain_verbMark (ok.toChar_ne inside) (by decide)
  | badWidth | badPlaces | noVerb => exact plain_mark (by decide)
  | unused =>
    intro x rounding
    have shown := oneLine_conversionText (show '\n' ≠ 'v' by decide) (.general false) bareField x
    refine Text.oneLine_ofString.mpr (OneLine.append (OneLine.append ?_ shown) (by decide))
    decide

theorem oneLine_render {format : Text} (ok : format.OneLine) (x : Number) (rounding : Ordering) :
    (render format x rounding).OneLine :=
  Text.oneLine_flatMap fun piece inside => (reading_piecesFrom _ _ piece inside).plain ok x rounding

end Format

end Abacus
