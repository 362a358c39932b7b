import Abacus.Proofs.Giving
import Mathlib

/-!
Names, by themselves and as lines.

A text is a name exactly if reading it gives one name and nothing else, and this name has the bytes of the text. So a
variable that was given before a session can be asked for by its name, and there is no other text that would do.
-/

namespace Abacus

namespace Text

variable {t : Text} {name : String}

/-- What reads as part of a name is no stray byte. -/
theorem eq_char_of_isNamePart {s : Symbol} (part : isNamePart s.toChar = true) : s = .char s.toChar := by
  cases s with
  | char c => rfl
  | stray b =>
    have no_part : isNamePart (Char.ofNat 0xFFFD) = false := by decide +kernel
    cases part.symm.trans no_part

theorem ofString_toString (parts : ∀ c ∈ t.toChars, isNamePart c = true) : ofString t.toString = t := by
  rw [ofString, toString, String.toList_ofList, toChars, List.map_map]
  refine (List.map_congr_left fun s inside => ?_).trans (List.map_id t)
  exact (eq_char_of_isNamePart (parts _ (List.mem_map_of_mem inside))).symm

theorem isName_toString (t : Text) : isName (ofString t.toString) = t.isName := by
  rw [isName, toChars_ofString, toString, String.toList_ofList, isName]

theorem parts_of_isName (named : t.isName = true) : ∀ c ∈ t.toChars, isNamePart c = true := by
  rw [← isName_toString] at named
  have parts := isNamePart_of_isName named
  rwa [toString, String.toList_ofList] at parts

theorem toBytes_append (t u : Text) : toBytes (t ++ u) = t.toBytes ++ u.toBytes :=
  List.flatMap_append

theorem eq_nil_of_toBytes (none : t.toBytes = []) : t = [] := by
  rw [toBytes, List.flatMap_eq_nil_iff] at none
  refine List.eq_nil_iff_forall_not_mem.mpr fun s inside => ?_
  cases s with
  | char c => exact String.utf8EncodeChar_ne_nil (none _ inside)
  | stray b => cases none _ inside

/-- A text that reads as a name somewhere, and has the bytes of the name, is the name. -/
theorem eq_ofString_of_infix (parts : ∀ c ∈ name.toList, isNamePart c = true) (inside : name.toList <:+: t.toChars)
    (bytes : (ofString name).toBytes = t.toBytes) : t = ofString name := by
  obtain ⟨front, back, split⟩ := inside
  obtain ⟨before, after, rfl, before_chars, after_chars⟩ := List.map_eq_append_iff.mp split.symm
  obtain ⟨lead, own, rfl, lead_chars, own_chars⟩ := List.map_eq_append_iff.mp before_chars
  have own_same : own = ofString name := by
    have own_parts : ∀ c ∈ toChars own, isNamePart c = true := by rwa [toChars, own_chars]
    rw [← ofString_toString own_parts, toString, toChars, own_chars, String.ofList_toList]
  subst own_same
  rw [toBytes_append, toBytes_append] at bytes
  have lengths := congrArg List.length bytes
  rw [List.length_append, List.length_append] at lengths
  have no_lead : lead = [] := eq_nil_of_toBytes (List.length_eq_zero_iff.mp (by omega))
  have no_rest : after = [] := eq_nil_of_toBytes (List.length_eq_zero_iff.mp (by omega))
  rw [no_lead, no_rest, List.nil_append, List.append_nil]

end Text

namespace Lexer

variable {text : List Char} {ls : List Lexeme} {l : Lexeme} {name : String}

/-- Every lexeme that a text spells stands in it. -/
theorem Spells.infix_of_mem (spells : Spells text ls) (inside : l ∈ ls) : l.text.toList <:+: text := by
  induction spells with
  | nothing => cases inside
  | @blank c rest ls _ _ ih => exact (ih inside).trans (List.suffix_cons c rest).isInfix
  | @lexeme first rest ls _ _ _ ih =>
    rcases List.mem_cons.mp inside with rfl | later
    · exact (List.prefix_append ..).isInfix
    · exact (ih later).trans (List.suffix_append ..).isInfix

theorem tokenize_name (named : Text.isName (Text.ofString name) = true) :
    tokenize {} name.toList = .ok [⟨.name name, 1⟩, ⟨.ending, 1 + name.length⟩] := by
  have scanned := readsNext_name named 1 [] nofun
  rw [List.append_nil] at scanned
  change collect (upToLast (scanFrom {} .between 1 (Lexeme.name name).text.toList)) = _
  rw [scanned]
  rfl

end Lexer

namespace Grammar

variable {params : List String} {p : Phrase} {ts : List Lexeme} {t : Tree} {name : String}

/-- A variable by itself comes from its name, with brackets around it or not. -/
theorem Derives.ident_mem (derived : Derives params p ts t) (tree : t = .ident name) : .name name ∈ ts := by
  induction derived with
  | sum_product _ ih | product_unary _ ih | unary_primary _ ih => exact ih tree
  | sum_step | product_step | unary_sign | assign | call | number | call_head | call_next | atom_number => cases tree
  | name leaf | atom_name leaf =>
    subst tree
    cases leaf
    exact List.mem_singleton_self _
  | group _ ih | atom_group _ ih => exact List.mem_cons_of_mem _ (List.mem_append_left _ (ih tree))

theorem Line.ident_mem (line : Line (ts ++ [.ending]) (.ident name)) : .name name ∈ ts := by
  generalize whole : ts ++ [.ending] = all at line
  cases line with
  | expression body =>
    rw [List.append_cancel_right whole]
    exact body.ident_mem rfl

end Grammar

namespace Parser

variable {name : String} {text : Text}

theorem parseText_name (named : Text.isName (Text.ofString name) = true) :
    parseText (Text.ofString name) = .ok (Tree.ident name).toLine := by
  obtain ⟨ls, spells, derived⟩ := Grammar.operand_name named
  refine parseText_of_parse ?_
  rw [Text.toChars_ofString]
  exact parse_of_spells spells (.expression (Tree.sum_of_primary derived))

/-- Only the name itself has its bytes and is read as the variable. -/
theorem isName_of_spells {ls : List Lexeme} (spells : Lexer.Spells text.toChars ls) (inside : .name name ∈ ls)
    (bytes : (Text.ofString name).toBytes = text.toBytes) : text.isName = true := by
  have named : Text.isName (Text.ofString name) = true := spells.proper _ inside
  have parts := Text.parts_of_isName named
  rw [Text.toChars_ofString] at parts
  have name_inside : (Lexeme.name name).text.toList <:+: text.toChars := spells.infix_of_mem inside
  rw [Text.eq_ofString_of_infix parts name_inside bytes]
  exact named

end Parser

namespace Environment

variable {policy : Policy} {env : Environment} {definition before value : Text} {name : String} {x : Number}

/-- A variable by itself has its value, at the precision of the place of the stack that takes it. -/
theorem evaluate_ident (idle : env.stack.live = []) (bound : env.vars.find? name = some x) :
    ∃ place, (env.stack.push (.zero (numberPrec env.prec))).live = [place] ∧
      (env.evaluate (Tree.ident name).toLine).1 = .ok (.value (x.atPrec place.prec)) := by
  obtain ⟨place, pushed⟩ : ∃ place, (env.stack.push (.zero (numberPrec env.prec))).live = [place] := by
    unfold Stack.push
    rw [idle]
    split <;> exact ⟨_, rfl⟩
  have looked : Evaluation.lookup env name env.machine = .ok (some x) env.machine := by
    rw [← bound]
    rfl
  have ran : Evaluation.evalLine env (.ident name) env.machine =
      .ok () { env.machine with stack := (env.stack.push (.zero (numberPrec env.prec))).store x } := by
    rw [Evaluation.evalLine, Evaluation.eval, Evaluation.evalWith, Evaluation.bind_ok looked]
    rfl
  have live : ((env.stack.push (.zero (numberPrec env.prec))).store x).live = [x.atPrec place.prec] := by
    rw [Stack.store, pushed]
    change x.atPrec place.prec :: (env.stack.push _).live.tail = _
    rw [pushed]
    rfl
  have ok : (Tree.ident name).toLine.tree.Expression true [] := .ident name
  exact ⟨place, pushed, by rw [evaluate_of_evalLine idle ok ran live]⟩

/-- A variable that was given has its value when it is asked for. -/
theorem exec_given_name (reachable : Reachable policy env) (cut : definition.cut? '=' = some (before, value))
    (given : (env.give definition).1 = .ok ()) :
    ∃ name x y, Text.ofString name = before.trim ∧ (env.give definition).2.vars.find? name = some x ∧
      ((env.give definition).2.exec before.trim).1 = .ok (.value y) ∧ (0 < env.prec → y = x) := by
  have after : Reachable policy (env.give definition).2 :=
    reachable.give definition fun f fails => by rw [fails] at given; cases given
  rcases give_cases env definition with ⟨e, failed⟩ | ⟨_, _, v, cut', named, expresses, by_value⟩
  · rw [failed] at given
    cases given
  cases cut.symm.trans cut'
  have trimmed : Text.ofString before.trim.toString = before.trim :=
    Text.ofString_toString (Text.parts_of_isName named)
  have read := Parser.parseText_name (trimmed.symm ▸ named : Text.isName (Text.ofString before.trim.toString) = true)
  rw [trimmed] at read
  obtain ⟨x, gives⟩ : ∃ x, (env.evaluate v.toLine).1 = .ok (.value x) := by
    refine (value_or_error reachable.safe.idle expresses.expression).resolve_right ?_
    rintro ⟨stop, fails⟩
    obtain ⟨e, failed⟩ := giveValue_of_error fails before.trim.toString
    rw [by_value, failed] at given
    cases given
  rw [giveValue_of_value reachable.safe.idle expresses.expression gives] at by_value
  have bound : (env.give definition).2.vars.find? before.trim.toString = some (keep env.prec x) := by
    rw [by_value]
    exact Bindings.find?_insert_self ..
  have prec : (env.give definition).2.prec = env.prec := by
    rw [by_value]
    exact prec_evaluate ..
  obtain ⟨place, pushed, shown⟩ := evaluate_ident after.safe.idle bound
  refine ⟨_, _, _, trimmed, bound, (exec_eq_ok_iff read).mpr shown, fun positive => ?_⟩
  rw [← prec] at positive
  have uniform := after.uniform_of_pos positive
  obtain ⟨_, place_prec, live, -⟩ := uniform.stack.push (.zero _) rfl
  obtain ⟨rfl, -⟩ := List.cons.inj (pushed.symm.trans live)
  have value_prec : (keep env.prec x).prec = numberPrec (env.give definition).2.prec := uniform.vars _ _ bound
  rw [place_prec, ← value_prec, Number.atPrec_self]

/-- A text is a name exactly if its tokens are one name in the first column and the end, and exactly if it is read as a
variable. In both cases this means the name that has the bytes of the text. A variable that is given can be asked for
by its name alone, and what is no name cannot be given. -/
theorem isName_iff_reads :
    (∀ bytes, (Text.ofBytes bytes).isName = true ↔ ∃ name column, (Text.ofString name).toBytes = bytes ∧
      Lexer.tokenize {} (Text.ofBytes bytes).toChars = .ok [⟨.name name, 1⟩, ⟨.ending, column⟩]) ∧
    (∀ bytes, (Text.ofBytes bytes).isName = true ↔ ∃ name, (Text.ofString name).toBytes = bytes ∧
      Parser.parseText (Text.ofBytes bytes) = .ok { tree := .ident name, vars := [name] }) ∧
    ∀ policy env definition before value, Reachable policy env → definition.cut? '=' = some (before, value) →
      (before.trim.isName = false → env.give definition = (.error (.badName before.trim), env)) ∧
      ((env.give definition).1 = .ok () →
        ∃ name x y, Text.ofString name = before.trim ∧ (env.give definition).2.vars.find? name = some x ∧
          ((env.give definition).2.exec before.trim).1 = .ok (.value y) ∧ (0 < env.prec → y = x)) := by
  have own : ∀ bytes, (Text.ofBytes bytes).isName = true →
      ∃ name, Text.ofBytes bytes = Text.ofString name ∧ (Text.ofString name).toBytes = bytes := by
    intro bytes named
    have same := Text.ofString_toString (Text.parts_of_isName named)
    exact ⟨_, same.symm, by rw [same, Text.toBytes_ofBytes]⟩
  have same_bytes : ∀ {bytes name}, (Text.ofString name).toBytes = bytes →
      (Text.ofString name).toBytes = (Text.ofBytes bytes).toBytes := fun same => by rw [Text.toBytes_ofBytes, same]
  refine ⟨fun bytes => ⟨fun named => ?_, ?_⟩, fun bytes => ⟨fun named => ?_, ?_⟩,
    fun policy env definition before value reachable cut => ⟨fun unnamed => ?_, exec_given_name reachable cut⟩⟩
  · obtain ⟨name, same, name_bytes⟩ := own bytes named
    rw [same] at named ⊢
    rw [Text.toChars_ofString]
    exact ⟨name, _, name_bytes, Lexer.tokenize_name named⟩
  · rintro ⟨name, column, bytes_same, tokenized⟩
    have spells : Lexer.Spells _ [.name name] := Lexer.tokenize_iff_spells.mp ⟨_, tokenized, rfl⟩
    exact Parser.isName_of_spells spells (List.mem_singleton_self _) (same_bytes bytes_same)
  · obtain ⟨name, same, name_bytes⟩ := own bytes named
    rw [same] at named ⊢
    exact ⟨name, name_bytes, Parser.parseText_name named⟩
  · rintro ⟨name, bytes_same, read⟩
    obtain ⟨ls, spells, line⟩ := Parser.spells_of_parse (Parser.parse_of_parseText read)
    exact Parser.isName_of_spells spells line.ident_mem (same_bytes bytes_same)
  · simp [give, cut, unnamed]

/-- A name with a letter of two bytes, and a variable that is given with blanks around its name. -/
theorem isName_iff_reads_letter :
    (∃ name column, (Text.ofString name).toBytes = [0xC3, 0xA9, 0x31] ∧
      Lexer.tokenize {} (Text.ofBytes [0xC3, 0xA9, 0x31]).toChars = .ok [⟨.name name, 1⟩, ⟨.ending, column⟩]) ∧
    ∃ name x y, Text.ofString name = Text.ofString "x" ∧
      ((blank 8).give (Text.ofString " x = 2")).2.vars.find? name = some x ∧
      (((blank 8).give (Text.ofString " x = 2")).2.exec (Text.ofString "x")).1 = .ok (.value y) ∧ y = x := by
  have named : (Text.ofBytes [0xC3, 0xA9, 0x31]).isName = true := by decide +kernel
  have given : ((blank 8).give (Text.ofString " x = 2")).1 = .ok () := by cbv
  have cut : Text.cut? '=' (Text.ofString " x = 2") = some (Text.ofString " x ", Text.ofString " 2") := by decide
  have trimmed : (Text.ofString " x ").trim = Text.ofString "x" := rfl
  refine ⟨(isName_iff_reads.1 _).mp named, ?_⟩
  obtain ⟨name, x, y, same, bound, shown, equal⟩ :=
    (isName_iff_reads.2.2 _ _ _ _ _ (reachable_blank (Nat.succ_pos 7)) cut).2 given
  rw [trimmed] at same shown
  exact ⟨name, x, y, same, bound, shown, equal (Nat.succ_pos 7)⟩

end Environment

end Abacus
