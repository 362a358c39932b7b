import Abacus.Proofs.Effects
import Mathlib

/-!
What the settings of an environment come to.

The precision and the constants are looked for before any variable is bound, so only the last precision counts and it
counts for all variables, wherever in the list it stands. Of the values for a name the last one counts. Settings of
different kinds can therefore be moved past each other.
-/

namespace Abacus

open Environment (keep numberPrec chosenPrec applySetting)

namespace Setting

/-- The value that the setting gives a variable. Of two for one name in a list the later one counts. -/
def value? (name : String) : Setting → Option Number
  | .var other value => if name = other then some value else none
  | .vars bindings => bindings.reverse.lookup name
  | _ => none

def setsPrec (s : Setting) : Bool :=
  s.prec?.isSome

def setsVars : Setting → Bool
  | .var _ _ => true
  | .vars _ => true
  | _ => false

/-- The last value that is given to a variable. -/
def lastValue? (settings : List Setting) (name : String) : Option Number :=
  settings.reverse.findSome? (value? name)

/-- The same settings in another order, but with the precisions and the variables each in the old one. -/
structure Rearranged (settings settings' : List Setting) : Prop where
  perm : settings.Perm settings'
  precs : settings.filter setsPrec = settings'.filter setsPrec
  vars : settings.filter setsVars = settings'.filter setsVars

variable {s : Setting} {settings settings' : List Setting} {prec : Nat} {vars : Bindings Number}

theorem lastPrec?_cons (s : Setting) (rest : List Setting) :
    lastPrec? (s :: rest) = (lastPrec? rest).or s.prec? := by
  simp [lastPrec?, List.findSome?_append]

theorem lastValue?_cons (s : Setting) (rest : List Setting) (name : String) :
    lastValue? (s :: rest) name = (lastValue? rest name).or (s.value? name) := by
  simp [lastValue?, List.findSome?_append]

/-- Looking for the first precision from the end finds the same as going through all of them from the front. -/
theorem chosenPrec_eq (default : Nat) (settings : List Setting) :
    chosenPrec default settings = (lastPrec? settings).getD default := by
  induction settings generalizing default with
  | nil => rfl
  | cons s rest ih =>
    have step : chosenPrec default (s :: rest) = chosenPrec (s.prec?.getD default) rest := rfl
    rw [step, ih, lastPrec?_cons]
    cases lastPrec? rest <;> rfl

theorem lastPrec?_filter (settings : List Setting) : lastPrec? (settings.filter setsPrec) = lastPrec? settings := by
  induction settings with
  | nil => rfl
  | cons s rest ih =>
    rw [lastPrec?_cons, ← ih, List.filter_cons]
    split
    · rw [lastPrec?_cons]
    · rename_i silent
      rw [Option.not_isSome_iff_eq_none.mp silent, Option.or_none]

theorem Rearranged.lastPrec?_eq (moved : Rearranged settings settings') :
    lastPrec? settings = lastPrec? settings' := by
  rw [← lastPrec?_filter, moved.precs, lastPrec?_filter]

/-- What one setting does to the variables. -/
theorem applySetting_known (prec : Nat) (vars : Bindings Number) (known : s ≠ .unknown) :
    ∃ vars', applySetting prec vars s = .ok vars' ∧
      ∀ name, vars'.find? name = ((s.value? name).map (keep prec)).or (vars.find? name) := by
  cases s with
  | var other value =>
    refine ⟨_, rfl, fun name => ?_⟩
    rw [Bindings.find?_insert, value?]
    split <;> rfl
  | vars bindings =>
    refine ⟨_, rfl, fun name => ?_⟩
    rw [Bindings.find?_insertAll_last, ← List.map_reverse, value?]
    exact congrArg (Option.or · (vars.find? name)) (Bindings.lookup_map (keep prec) bindings.reverse name)
  | unknown => exact absurd rfl known
  | prec | noConstants | nothing => exact ⟨vars, rfl, fun _ => rfl⟩

/-- What a list of settings does to the variables. -/
theorem foldlM_known (vars : Bindings Number) (known : .unknown ∉ settings) :
    ∃ vars', settings.foldlM (applySetting prec) vars = .ok vars' ∧
      ∀ name, vars'.find? name = ((lastValue? settings name).map (keep prec)).or (vars.find? name) := by
  induction settings generalizing vars with
  | nil => exact ⟨vars, rfl, fun _ => rfl⟩
  | cons s rest ih =>
    obtain ⟨first, others⟩ := not_or.mp (mt List.mem_cons.mpr known)
    obtain ⟨vars₁, applied, found⟩ := applySetting_known prec vars (Ne.symm first)
    obtain ⟨vars₂, folded, found'⟩ := ih vars₁ others
    refine ⟨vars₂, ?_, fun name => ?_⟩
    · rw [List.foldlM_cons, applied]
      exact folded
    · rw [found', found, lastValue?_cons, Option.map_or, Option.or_assoc]

/-- One unknown setting spoils all, wherever it stands. -/
theorem foldlM_unknown (vars : Bindings Number) (inside : .unknown ∈ settings) :
    settings.foldlM (applySetting prec) vars = .error .unknownOption := by
  induction settings generalizing vars with
  | nil => cases inside
  | cons s rest ih =>
    rw [List.foldlM_cons]
    by_cases unknown : s = .unknown
    · rw [unknown]
      rfl
    · obtain ⟨vars₁, applied, -⟩ := applySetting_known prec vars unknown
      rw [applied]
      exact ih vars₁ ((List.mem_cons.mp inside).resolve_left (Ne.symm unknown))

/-- Known settings that are not about variables do nothing to them. -/
theorem foldlM_filter (vars : Bindings Number) (known : .unknown ∉ settings) :
    (settings.filter setsVars).foldlM (applySetting prec) vars = settings.foldlM (applySetting prec) vars := by
  induction settings generalizing vars with
  | nil => rfl
  | cons s rest ih =>
    obtain ⟨first, others⟩ := not_or.mp (mt List.mem_cons.mpr known)
    rw [List.foldlM_cons]
    cases s with
    | var | vars =>
      rw [List.filter_cons_of_pos rfl, List.foldlM_cons]
      exact bind_congr fun vars₁ => ih vars₁ others
    | unknown => exact absurd rfl first
    | prec | noConstants | nothing => exact ih vars others

theorem Rearranged.foldlM_eq (moved : Rearranged settings settings') (vars : Bindings Number) :
    settings.foldlM (applySetting prec) vars = settings'.foldlM (applySetting prec) vars := by
  by_cases known : .unknown ∈ settings
  · rw [foldlM_unknown vars known, foldlM_unknown vars (moved.perm.mem_iff.mp known)]
  · rw [← foldlM_filter vars known, moved.vars, foldlM_filter vars (mt moved.perm.mem_iff.mpr known)]

end Setting

namespace Environment

open Setting

variable {base env : Environment} {settings settings' : List Setting} {constants : Constants}

/-- The variables are as the environment keeps them. -/
def Kept (env : Environment) : Prop :=
  env.vars.All fun _ x => keep env.prec x = x

theorem kept_of_uniform (uniform : 0 < env.prec → env.vars.All fun _ x => x.prec = numberPrec env.prec) :
    env.Kept := by
  intro name x found
  rcases Nat.eq_zero_or_pos env.prec with none | positive
  · rw [none]
    exact Number.atPrec_zero x
  · exact keep_of_prec (uniform positive name x found)

/-- Every environment keeps its variables in that way. -/
theorem kept_of_reachable {policy : Policy} (reachable : Reachable policy base) : base.Kept :=
  kept_of_uniform fun positive => (reachable.uniform_of_pos positive).vars

theorem find?_varsAt (kept : base.Kept) (prec : Nat) (name : String) :
    (base.varsAt prec).find? name = (base.vars.find? name).map (keep prec) := by
  unfold varsAt
  split
  · rename_i same
    cases found : base.vars.find? name with
    | none => rfl
    | some x => rw [Option.map_some, same, kept name x found]
  · exact Bindings.find?_map (keep prec) base.vars name

/-- The environment that settings make, where `vars` and `default` say what there is without them. -/
structure SetUp (default : Nat) (vars : String → Option Number) (functions : Bindings Func)
    (settings : List Setting) (env : Environment) : Prop where
  prec : env.prec = (lastPrec? settings).getD default
  functions : env.functions = functions
  vars : ∀ name, env.vars.find? name = ((lastValue? settings name).or (vars name)).map (keep env.prec)

/-- What a copy is made of, whatever variables there were. -/
theorem clone_known (base : Environment) (known : .unknown ∉ settings) :
    ∃ env, base.clone settings = .ok env ∧ env.prec = (lastPrec? settings).getD base.prec ∧
      env.functions = base.functions ∧
      ∀ name, env.vars.find? name =
        ((lastValue? settings name).map (keep env.prec)).or ((base.varsAt env.prec).find? name) := by
  obtain ⟨vars, folded, found⟩ := foldlM_known (base.varsAt ((lastPrec? settings).getD base.prec)) known
  exact ⟨_, Except.bind_eq_ok_iff.mpr ⟨vars, folded, rfl⟩, rfl, rfl, found⟩

theorem setUp_clone (kept : base.Kept) (known : .unknown ∉ settings) :
    ∃ env, base.clone settings = .ok env ∧ SetUp base.prec base.vars.find? base.functions settings env := by
  obtain ⟨env, copied, prec, functions, vars⟩ := clone_known base known
  refine ⟨env, copied, prec, functions, fun name => ?_⟩
  rw [vars, find?_varsAt kept, Option.map_or]

theorem clone_unknown (base : Environment) (inside : .unknown ∈ settings) :
    base.clone settings = .error .unknownOption := by
  rw [clone, foldlM_unknown _ inside]
  rfl

theorem clone_rearranged (moved : Rearranged settings settings') (base : Environment) :
    base.clone settings = base.clone settings' := by
  rw [clone, clone, moved.lastPrec?_eq, moved.foldlM_eq]

/-- Where the precision stays, a copy takes over the variables just as they are. -/
theorem find?_clone_of_prec (copied : base.clone settings = .ok env) (same : env.prec = base.prec) {name : String}
    (unset : lastValue? settings name = none) : env.vars.find? name = base.vars.find? name := by
  have known : .unknown ∉ settings := by
    intro inside
    rw [clone_unknown base inside] at copied
    cases copied
  obtain ⟨_, copied', -, -, vars⟩ := clone_known base known
  cases copied.symm.trans copied'
  rw [vars, unset, varsAt, if_pos same]
  rfl

theorem any_refusesConstants_iff : settings.any refusesConstants = true ↔ .noConstants ∈ settings := by
  rw [List.any_eq_true]
  constructor
  · rintro ⟨s, inside, refuses⟩
    cases s <;> cases refuses
    exact inside
  · exact fun inside => ⟨_, inside, rfl⟩

theorem setUp_create (constants : Constants) (known : .unknown ∉ settings) :
    ∃ env, create settings constants = .ok env ∧ env.prec = (initial settings constants).prec ∧
      SetUp 64 (initial settings constants).vars.find? .empty settings env := by
  have kept : (initial settings constants).Kept := kept_of_uniform initial_prec
  obtain ⟨env, created, prec, functions, vars⟩ := setUp_clone kept known
  have chosen : (initial settings constants).prec = (lastPrec? settings).getD 64 := chosenPrec_eq 64 settings
  have same : env.prec = (initial settings constants).prec := by
    rw [prec, chosen]
    cases lastPrec? settings <;> rfl
  exact ⟨env, created, same, same.trans chosen, functions, vars⟩

/-- The constants come at the precision of the environment, and are not rounded again. -/
theorem keep_predefined (constants : Constants) (prec : Nat) {name : String} {x : Number}
    (found : (predefined constants prec).find? name = some x) : keep prec x = x := by
  have kept : ({ blank prec with vars := predefined constants prec } : Environment).Kept :=
    kept_of_uniform fun positive => predefined_prec positive constants
  exact kept name x found

theorem create_unknown (inside : .unknown ∈ settings) : create settings constants = .error .unknownOption :=
  clone_unknown _ inside

theorem create_rearranged (moved : Rearranged settings settings') :
    create settings constants = create settings' constants := by
  have refused : settings.any refusesConstants = settings'.any refusesConstants := by
    rw [Bool.eq_iff_iff, any_refusesConstants_iff, any_refusesConstants_iff, moved.perm.mem_iff]
  have same : initial settings constants = initial settings' constants := by
    rw [initial, initial, chosenPrec_eq, chosenPrec_eq, moved.lastPrec?_eq, refused]
  rw [create, create, same, clone_rearranged moved]

/-- Only the last precision counts, and of the values for each name only the last one, which is rounded to that
precision like the variables that were there before. These stay as they are if the precision does, which is the same for
variables that are kept as every environment keeps them. New environments begin with the constants at that precision,
unless one setting refuses them. Nothing else of the order matters, and an unknown setting is never accepted. -/
theorem settings_determine (constants : Constants) (base : Environment) (settings : List Setting) :
    (.unknown ∉ settings →
      (base.Kept →
        ∃ env, base.clone settings = .ok env ∧ SetUp base.prec base.vars.find? base.functions settings env) ∧
      ∃ env, create settings constants = .ok env ∧
        (.noConstants ∈ settings → SetUp 64 (fun _ => none) .empty settings env) ∧
        (.noConstants ∉ settings → SetUp 64 (predefined constants env.prec).find? .empty settings env) ∧
        ∀ name x, (predefined constants env.prec).find? name = some x → keep env.prec x = x) ∧
    (∀ policy, Reachable policy base → base.Kept) ∧
    (∀ env name, base.clone settings = .ok env → env.prec = base.prec →
      lastValue? settings name = none → env.vars.find? name = base.vars.find? name) ∧
    (∀ settings', Rearranged settings settings' →
      base.clone settings = base.clone settings' ∧ create settings constants = create settings' constants) ∧
    (.unknown ∈ settings →
      base.clone settings = .error .unknownOption ∧ create settings constants = .error .unknownOption) := by
  refine ⟨fun known => ⟨fun kept => setUp_clone kept known, ?_⟩, fun policy => kept_of_reachable,
    fun env name copied same unset => find?_clone_of_prec copied same unset,
    fun settings' moved => ⟨clone_rearranged moved base, create_rearranged moved⟩,
    fun inside => ⟨clone_unknown base inside, create_unknown inside⟩⟩
  obtain ⟨env, created, same, setUp⟩ := setUp_create constants known
  refine ⟨env, created, fun refused => ?_, fun wanted => ?_, fun name x => keep_predefined constants env.prec⟩
  · have none_bound : (initial settings constants).vars = .empty := if_pos (any_refusesConstants_iff.mpr refused)
    rw [none_bound] at setUp
    exact setUp
  · have bound : (initial settings constants).vars = predefined constants (initial settings constants).prec :=
      if_neg (mt any_refusesConstants_iff.mp wanted)
    rw [bound, ← same] at setUp
    exact setUp

/-- A precision between two variables counts for both of them, and could as well stand before them. -/
theorem settings_determine_moved :
    ∃ env,
      create [.var "x" (.ofScaled 8 false 9 0), .noConstants, .prec 3, .var "y" (.ofScaled 8 false 11 0)] = .ok env ∧
      env.prec = 3 ∧ env.vars.find? "x" = some (.ofScaled 3 false 8 0) ∧
      env.vars.find? "y" = some (.ofScaled 3 false 12 0) ∧ env.vars.find? "pi" = none ∧
      create [.prec 3, .var "x" (.ofScaled 8 false 9 0), .noConstants, .var "y" (.ofScaled 8 false 11 0)] =
        .ok env := by
  obtain ⟨known, -, -, moved, -⟩ := settings_determine .standard bare
    [.var "x" (.ofScaled 8 false 9 0), .noConstants, .prec 3, .var "y" (.ofScaled 8 false 11 0)]
  obtain ⟨-, env, created, without, -⟩ := known (by simp)
  obtain ⟨prec, -, vars⟩ := without (by simp)
  have prec_three : env.prec = 3 := prec
  rw [prec_three] at vars
  have first : Rearranged _
      [.prec 3, .var "x" (.ofScaled 8 false 9 0), .noConstants, .var "y" (.ofScaled 8 false 11 0)] :=
    ⟨@List.perm_middle Setting (.prec 3) [.var "x" _, .noConstants] [.var "y" _], rfl, rfl⟩
  refine ⟨env, created, prec_three, (vars "x").trans ?_, (vars "y").trans ?_, (vars "pi").trans ?_,
    (moved _ first).2.symm.trans created⟩
  · cbv
  · cbv
  · cbv

end Environment

end Abacus
