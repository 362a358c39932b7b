import Abacus.Format
import Mathlib

/-!
What the pieces of a format can be.

Every piece stands for a symbol of the format, for what a verb makes of the number, or for a fault of a directive. The
verbs that show in it are symbols of the format.
-/

namespace Abacus.Format

variable {p : Progress} {text part : List Symbol} {piece : Piece}

theorem readDigits_suffix (value : Nat) (text : List Symbol) : (readDigits value text).2 <:+ text := by
  fun_induction readDigits value text with
  | case1 => exact List.suffix_rfl
  | case2 => exact List.suffix_rfl
  | case3 => exact List.nil_suffix
  | case4 value s rest d found small ih => exact ih.trans (List.suffix_cons ..)

theorem readNumber_suffix (text : List Symbol) : (readNumber text).2 <:+ text := by
  unfold readNumber
  split
  · exact List.suffix_rfl
  · split
    · exact readDigits_suffix _ _
    · exact List.suffix_rfl

theorem splitBracket_suffix {inside after : List Symbol} (split : splitBracket text = some (inside, after)) :
    after <:+ text := by
  fun_induction splitBracket text generalizing inside with
  | case1 => cases split
  | case2 =>
    cases split
    exact List.suffix_cons ..
  | case3 s rest _ ih =>
    obtain ⟨⟨inside', after'⟩, found, same⟩ := Option.map_eq_some_iff.mp split
    cases same
    exact (ih found).trans (List.suffix_cons ..)

theorem readIndex_suffix (p : Progress) (text : List Symbol) : (readIndex p text).2 <:+ text := by
  unfold readIndex
  split
  · rename_i rest
    refine List.IsSuffix.trans ?_ (List.suffix_cons ..)
    dsimp only
    split
    · exact List.suffix_rfl
    · rename_i inside after found
      have closed : splitBracket rest = some (inside, after) := by
        split at found
        · cases found
        · exact found
      have left := splitBracket_suffix closed
      split <;> exact left
  · exact List.suffix_rfl

theorem readWidth_suffix (p : Progress) (text : List Symbol) : (readWidth p text).2.2.2 <:+ text := by
  unfold readWidth
  split
  · exact List.suffix_cons ..
  · exact readNumber_suffix _

theorem readPlaces_suffix (p : Progress) (text : List Symbol) : (readPlaces p text).2.2.2 <:+ text := by
  unfold readPlaces
  split
  · rename_i next rest
    refine List.IsSuffix.trans ?_ (List.suffix_cons ..)
    have left := readIndex_suffix { p with good := p.good && !p.afterIndex } (next :: rest)
    dsimp only
    split
    · rename_i after same
      rw [same] at left
      exact (List.suffix_cons ..).trans left
    · exact (readNumber_suffix _).trans left
  · exact List.suffix_rfl

theorem readVerb_suffix (p : Progress) (field : Field) (text : List Symbol) :
    (readVerb p field text).2.2 <:+ text := by
  unfold readVerb
  split
  · exact List.suffix_rfl
  · rename_i s rest
    have left := List.suffix_cons s rest
    dsimp only
    split_ifs <;> exact left

/-- The pieces that can be read from a text. -/
inductive Reading (text : List Symbol) : Piece → Prop
  | literal {s : Symbol} (inside : s ∈ text) : Reading text (.verbatim s)
  | percent : Reading text (.verbatim (.char '%'))
  | verb {s : Symbol} (inside : s ∈ text) (field : Field) : Reading text (pieceOf s.toChar field)
  | badIndex {s : Symbol} (inside : s ∈ text) : Reading text (verbMark s.toChar "BADINDEX")
  | missing {s : Symbol} (inside : s ∈ text) : Reading text (verbMark s.toChar "MISSING")
  | badWidth : Reading text (.mark "%!(BADWIDTH)")
  | badPlaces : Reading text (.mark "%!(BADPREC)")
  | noVerb : Reading text (.mark "%!(NOVERB)")
  | unused : Reading text .unused

theorem Reading.mono (reading : Reading part piece) (sub : part ⊆ text) : Reading text piece := by
  cases reading with
  | literal inside => exact .literal (sub inside)
  | percent => exact .percent
  | verb inside field => exact .verb (sub inside) field
  | badIndex inside => exact .badIndex (sub inside)
  | missing inside => exact .missing (sub inside)
  | badWidth => exact .badWidth
  | badPlaces => exact .badPlaces
  | noVerb => exact .noVerb
  | unused => exact .unused

theorem Reading.of_fault {pieces : List Piece} {fault : Piece} {q : Prop} (reading : Reading text fault)
    (either : pieces = [fault] ∨ pieces = [] ∧ q) : ∀ piece ∈ pieces, Reading text piece := by
  rcases either with rfl | ⟨rfl, -⟩
  · exact List.forall_mem_singleton.mpr reading
  · exact List.forall_mem_nil _

theorem readWidth_named (p : Progress) (text : List Symbol) : (readWidth p text).1.named = p.named := by
  unfold readWidth
  split <;> rfl

/-- A width either is a fault or does not touch the number. -/
theorem readWidth_cases (p : Progress) (text : List Symbol) :
    (readWidth p text).2.1 = [.mark "%!(BADWIDTH)"] ∨
      (readWidth p text).2.1 = [] ∧ (readWidth p text).1.available = p.available := by
  unfold readWidth
  split
  · exact .inl rfl
  · exact .inr ⟨rfl, rfl⟩

/-- Places either are a fault or do not touch the number, but they may name it. -/
theorem readPlaces_cases (p : Progress) (text : List Symbol) :
    (readPlaces p text).2.1 = [.mark "%!(BADPREC)"] ∨
      (readPlaces p text).2.1 = [] ∧ ((readPlaces p text).1 = p ∨
        ∃ p' rest, p'.available = p.available ∧ p'.named = p.named ∧
          (readPlaces p text).1 = (readIndex p' rest).1) := by
  unfold readPlaces
  split
  · rename_i next rest
    dsimp only
    split
    · exact .inl rfl
    · exact .inr ⟨rfl, .inr ⟨{ p with good := p.good && !p.afterIndex }, next :: rest, rfl, rfl, rfl⟩⟩
  · exact .inr ⟨rfl, .inl rfl⟩

theorem reading_readVerb (p : Progress) (field : Field) (text : List Symbol) :
    ∀ piece ∈ (readVerb p field text).2.1, Reading text piece := by
  unfold readVerb
  split
  · exact List.forall_mem_singleton.mpr .noVerb
  · rename_i s rest
    have inside : s ∈ s :: rest := List.mem_cons_self ..
    dsimp only
    split
    · exact List.forall_mem_singleton.mpr .percent
    split
    · exact List.forall_mem_singleton.mpr (.badIndex inside)
    split
    · exact List.forall_mem_singleton.mpr (.missing inside)
    · exact List.forall_mem_singleton.mpr (.verb inside field)

/-- The steps by which a directive is read. The name of a number before the verb is not looked for if one was just
read. -/
theorem readDirective_steps (p : Progress) (text : List Symbol) :
    ∃ (index : Progress × List Symbol) (width places : Progress × List Piece × Option Nat × List Symbol)
      (last : Progress × List Symbol) (field : Field),
      index = readIndex { p with good := true } (text.dropWhile isFlag) ∧
      width = readWidth index.1 index.2 ∧ places = readPlaces width.1 width.2.2.2 ∧
      (last = (places.1, places.2.2.2) ∨ last = readIndex places.1 places.2.2.2) ∧
      readDirective p text = ((readVerb last.1 field last.2).1,
        width.2.1 ++ places.2.1 ++ (readVerb last.1 field last.2).2.1, (readVerb last.1 field last.2).2.2) := by
  let index := readIndex { p with good := true } (text.dropWhile isFlag)
  let width := readWidth index.1 index.2
  let places := readPlaces width.1 width.2.2.2
  let last := if places.1.afterIndex then (places.1, places.2.2.2) else readIndex places.1 places.2.2.2
  let field : Field := ⟨flagsOf (text.takeWhile isFlag), width.2.2.1, places.2.2.1⟩
  refine ⟨index, width, places, last, field, rfl, rfl, rfl, ?_, rfl⟩
  unfold last
  split
  · exact .inl rfl
  · exact .inr rfl

/-- What a directive is read as, and that what is left after it is the end of the format. -/
theorem reading_readDirective (p : Progress) (text : List Symbol) :
    (∀ piece ∈ (readDirective p text).2.1, Reading text piece) ∧ (readDirective p text).2.2 <:+ text := by
  obtain ⟨index, width, places, last, field, index_read, width_read, places_read, last_read, directive⟩ :=
    readDirective_steps p text
  have left₁ : index.2 <:+ text := by
    rw [index_read]
    exact (readIndex_suffix _ _).trans (List.dropWhile_suffix isFlag)
  have left₂ : width.2.2.2 <:+ text := by
    rw [width_read]
    exact (readWidth_suffix _ _).trans left₁
  have left₃ : places.2.2.2 <:+ text := by
    rw [places_read]
    exact (readPlaces_suffix _ _).trans left₂
  have left₄ : last.2 <:+ text := by
    rcases last_read with rfl | rfl
    · exact left₃
    · exact (readIndex_suffix _ _).trans left₃
  rw [directive]
  refine ⟨fun piece inside => ?_, (readVerb_suffix _ _ _).trans left₄⟩
  rcases List.mem_append.mp inside with inside | inside
  · rcases List.mem_append.mp inside with inside | inside
    · rw [width_read] at inside
      exact Reading.badWidth.of_fault (readWidth_cases _ _) piece inside
    · rw [places_read] at inside
      exact Reading.badPlaces.of_fault (readPlaces_cases _ _) piece inside
  · exact (reading_readVerb _ _ _ piece inside).mono left₄.subset

theorem reading_piecesFrom (p : Progress) (text : List Symbol) : ∀ piece ∈ piecesFrom p text, Reading text piece := by
  fun_induction piecesFrom p text with
  | case1 p _ => exact List.forall_mem_singleton.mpr .unused
  | case2 => exact List.forall_mem_nil _
  | case3 p rest directive ih =>
    obtain ⟨readings, left⟩ := reading_readDirective p rest
    refine List.forall_mem_append.mpr ⟨fun piece inside => ?_, fun piece inside => ?_⟩
    · exact (readings piece inside).mono (List.subset_cons_self _ rest)
    · exact (ih piece inside).mono (List.subset_cons_of_subset _ left.subset)
  | case4 p s rest _ ih =>
    refine List.forall_mem_cons.mpr ⟨.literal (List.mem_cons_self ..), fun piece inside => ?_⟩
    exact (ih piece inside).mono (List.subset_cons_self s rest)

end Abacus.Format
