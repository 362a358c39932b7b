import Abacus.Proofs.Reasons
import Abacus.Session.Input
import Mathlib

/-!
A session answers every line in one line, and nothing in the line can break that.

What is written for a line is its tree, if the session shows trees, and then what it gives: a value in the format of
the session, that a function is defined, or why the line is wrong. No newline is in any of these, and one comes after
them. White space gets no answer. There are values that are too precise to be shown, and these stop the session. So
the output of a run has as many lines as its input has lines that are not blank, if nothing stops it.
-/

namespace Abacus

namespace Sink

variable {sink sink' sink'' : Sink} {first bytes : List UInt8} {t : Text}

/-- The sink has taken all of the bytes. -/
structure Took (sink : Sink) (bytes : List UInt8) (sink' : Sink) : Prop where
  written : sink'.written = sink.written ++ bytes
  room : sink'.room = sink.room.map (· - bytes.length)
  carriageReturns : sink'.carriageReturns = sink.carriageReturns

theorem took_nothing (sink : Sink) : sink.Took [] sink :=
  ⟨(List.append_nil _).symm, Option.map_id'.symm, rfl⟩

theorem fitting_of_fits (fits : sink.fits bytes = true) : sink.fitting bytes = bytes := by
  unfold Sink.fits at fits
  unfold fitting
  split
  · rfl
  · rename_i room limited
    rw [limited] at fits
    exact List.take_of_length_le (of_decide_eq_true fits)

theorem took_put (fits : sink.fits bytes = true) : sink.Took bytes (sink.put bytes).2 := by
  refine ⟨?_, rfl, rfl⟩
  rw [written_put, fitting_of_fits fits]

theorem Took.trans (early : sink.Took first sink') (late : sink'.Took bytes sink'') :
    sink.Took (first ++ bytes) sink'' := by
  refine ⟨?_, ?_, late.carriageReturns.trans early.carriageReturns⟩
  · rw [late.written, early.written, List.append_assoc]
  · rw [late.room, early.room, Option.map_map, List.length_append]
    exact congrArg (sink.room.map ·) (funext fun room => Nat.sub_sub room _ _)

theorem fits_left (fits : sink.fits (first ++ bytes) = true) : sink.fits first = true := by
  unfold Sink.fits at fits ⊢
  split at fits
  · rfl
  · simp only [List.length_append, decide_eq_true_eq] at fits ⊢
    omega

/-- Bytes fit after others if all of them fit. -/
theorem Took.fits_append (took : sink.Took first sink') (fits : sink.fits first = true) :
    sink.fits (first ++ bytes) = sink'.fits bytes := by
  unfold Sink.fits at fits ⊢
  rw [took.room]
  cases room : sink.room with
  | none => rfl
  | some n =>
    rw [room] at fits
    simp only [List.length_append, decide_eq_true_eq, Option.map_some, decide_eq_decide] at fits ⊢
    omega

/-- The bytes that are written for a text. -/
def bytesFor (sink : Sink) (t : Text) : List UInt8 :=
  t.toBytes.flatMap (lineBytes sink.carriageReturns)

theorem bytesFor_append (sink : Sink) (t u : Text) : sink.bytesFor (t ++ u) = sink.bytesFor t ++ sink.bytesFor u := by
  simp [bytesFor, Text.toBytes]

theorem Took.bytesFor_eq (took : sink.Took bytes sink') (t : Text) : sink'.bytesFor t = sink.bytesFor t := by
  rw [bytesFor, bytesFor, took.carriageReturns]

theorem bytesFor_oneLine (sink : Sink) (ok : t.OneLine) : sink.bytesFor t = t.toBytes := by
  have same : ∀ b ∈ t.toBytes, lineBytes sink.carriageReturns b = [b] := by
    intro b inside
    have differs : b ≠ newline := fun same => ok (same ▸ inside)
    simp [lineBytes, differs]
  rw [bytesFor, List.flatMap_congr same, List.flatMap_singleton']

/-- The bytes of a line, with its end. -/
def lineOf (sink : Sink) (t : Text) : List UInt8 :=
  t.toBytes ++ lineBytes sink.carriageReturns newline

theorem bytesFor_line (sink : Sink) (ok : t.OneLine) : sink.bytesFor (t ++ .ofString "\n") = sink.lineOf t := by
  have ending : (Text.ofString "\n").toBytes = [newline] := by decide
  rw [bytesFor_append, bytesFor_oneLine sink ok, bytesFor, ending, List.flatMap_singleton, lineOf]

theorem count_lineOf (sink : Sink) (ok : t.OneLine) : (sink.lineOf t).count newline = 1 := by
  have ending : (lineBytes sink.carriageReturns newline).count newline = 1 := by
    cases sink.carriageReturns <;> decide
  rw [lineOf, List.count_append, List.count_eq_zero.mpr ok, ending]

end Sink

/-- Whether a line of an input is answered. -/
def Input.Item.isVisible : Input.Item → Bool
  | .line bytes => !(Text.ofBytes bytes).isAllBlank
  | .tooLong => false

namespace Session

variable {s s' : Session} {source t : Text} {line : Line} {env' : Environment} {reply : Text}

/-- A text is written after which the environment is `env'`, or there is no room for the text. -/
inductive Prints (s : Session) (t : Text) (env' : Environment) : Except SessionStop Unit × Session → Prop
  | done {s' : Session} (fits : s.sink.fits (s.sink.bytesFor t) = true)
      (took : s.sink.Took (s.sink.bytesFor t) s'.sink) (env : s'.env = env') (config : s'.config = s.config)
      (lines : s'.lines = s.lines) : Prints s t env' (.ok (), s')
  | full {e : SessionError} {s' : Session} (full : s.sink.fits (s.sink.bytesFor t) = false)
      (lines : s'.lines = s.lines) : Prints s t env' (.error (.error e), s')

theorem write_prints (s : Session) (failure : SessionError) (t : Text) : s.Prints t s.env (s.write failure t) := by
  have outcome : s.write failure t =
      (if s.sink.fits (s.sink.bytesFor t) then .ok () else .error (.error failure), (s.write failure t).2) := rfl
  rw [outcome]
  cases fits : s.sink.fits (s.sink.bytesFor t) with
  | false => exact .full fits rfl
  | true => exact .done fits (Sink.took_put fits) rfl rfl rfl

/-- Events and environments are not written. -/
theorem Prints.congr {outcome : Except SessionStop Unit × Session} (prints : s'.Prints t env' outcome)
    (sink : s'.sink = s.sink) (config : s'.config = s.config) (lines : s'.lines = s.lines) :
    s.Prints t env' outcome := by
  cases prints with
  | done fits took env config' lines' =>
    rw [sink] at fits took
    exact .done fits took env (config'.trans config) (lines'.trans lines)
  | full full lines' =>
    rw [sink] at full
    exact .full full (lines'.trans lines)

/-- The tree of a line, if the session shows trees. -/
def echo (s : Session) (line : Line) : Text :=
  if s.config.echo then .ofString (line.tree.text ++ " : ") else []

theorem echoTree_prints (s : Session) (line : Line) : s.Prints (s.echo line) s.env (s.echoTree line) := by
  unfold echo echoTree
  split
  · exact s.write_prints _ _
  · have nothing : s.sink.bytesFor [] = [] := rfl
    refine .done ?_ ?_ rfl rfl rfl
    · rw [nothing, Sink.fits]
      split <;> rfl
    · rw [nothing]
      exact s.sink.took_nothing

/-- A line that is not blank counts. -/
def counted (s : Session) : Session :=
  { s with lines := s.lines + 1 }

theorem line_of_error (visible : source.isAllBlank = false) {e : InputError}
    (refused : Parser.parseText source = .error e) :
    s.line source = (s.counted.note (.parseFailed (s.lines + 1) source e)).writeError e.message := by
  rw [Session.line, visible, refused]
  rfl

theorem line_of_full {stop : SessionStop} (visible : source.isAllBlank = false)
    (read : Parser.parseText source = .ok line) (stopped : s.counted.echoTree line = (.error stop, s')) :
    s.line source = (.error stop, s') := by
  rw [counted] at stopped
  simp [Session.line, visible, read, stopped]

theorem line_of_echoed (visible : source.isAllBlank = false) (read : Parser.parseText source = .ok line)
    (echoed : s.counted.echoTree line = (.ok (), s')) : s.line source = s'.evaluateLine source line := by
  rw [counted] at echoed
  simp [Session.line, visible, read, echoed]

/-- After the tree comes what the line gives. -/
theorem line_prints (visible : source.isAllBlank = false) (read : Parser.parseText source = .ok line)
    (next : ∀ s' : Session, s'.env = s.env → s'.config = s.config → s'.Prints t env' (s'.evaluateLine source line)) :
    s.counted.Prints (s.echo line ++ t) env' (s.line source) := by
  have echoes : s.counted.Prints (s.echo line) s.env (s.counted.echoTree line) := s.counted.echoTree_prints line
  generalize echoed : s.counted.echoTree line = outcome at echoes
  cases echoes with
  | full full lines =>
    rw [line_of_full visible read echoed]
    refine .full ?_ lines
    rw [Sink.bytesFor_append, ← Bool.not_eq_true]
    intro fits
    rw [Sink.fits_left fits] at full
    cases full
  | @done s₁ fits took env config lines =>
    rw [line_of_echoed visible read echoed]
    have prints := next s₁ env config
    generalize s₁.evaluateLine source line = outcome at prints
    cases prints with
    | full full' lines' =>
      refine .full ?_ (lines'.trans lines)
      rw [Sink.bytesFor_append, took.fits_append fits, ← took.bytesFor_eq]
      exact full'
    | done fits' took' env' config' lines' =>
      rw [took.bytesFor_eq] at took' fits'
      refine .done ?_ ?_ env' (config'.trans config) (lines'.trans lines)
      · rw [Sink.bytesFor_append, took.fits_append fits]
        exact fits'
      · rw [Sink.bytesFor_append]
        exact took.trans took'

/-- A line whose evaluation stops the session. The tree has been written before. -/
theorem line_stops {f : Fault} (visible : source.isAllBlank = false) (read : Parser.parseText source = .ok line)
    (next : ∀ s' : Session, s'.env = s.env →
      (s'.evaluateLine source line).1 = .error (.fault f) ∧ (s'.evaluateLine source line).2.lines = s'.lines) :
    (s.line source).2.lines = s.lines + 1 ∧ (s.line source).1 ≠ .ok () ∧
      (s.sink.fits (s.sink.bytesFor (s.echo line)) = true → (s.line source).1 = .error (.fault f)) := by
  have echoes : s.counted.Prints (s.echo line) s.env (s.counted.echoTree line) := s.counted.echoTree_prints line
  generalize echoed : s.counted.echoTree line = outcome at echoes
  cases echoes with
  | full full lines =>
    rw [line_of_full visible read echoed]
    refine ⟨lines, by rintro ⟨⟩, fun fits => ?_⟩
    cases full.symm.trans fits
  | @done s₁ fits took env config lines =>
    rw [line_of_echoed visible read echoed]
    obtain ⟨stops, kept⟩ := next s₁ env
    refine ⟨kept.trans lines, ?_, fun _ => stops⟩
    rw [stops]
    rintro ⟨⟩

theorem evaluateLine_value {result : Result} (evaluated : s.env.evaluate line = (.ok result, env'))
    (showable : result.isShowable = true) :
    s.Prints (resultLine s.format (s.shownRounding line) result) env' (s.evaluateLine source line) := by
  let noted := { s with env := env' }.note (resultEvent s.lines source line.tree result)
  have shown : s.evaluateLine source line =
      noted.write .writingResult (resultLine s.format (s.shownRounding line) result) := by
    simp only [evaluateLine, evaluated, showable]
    rfl
  rw [shown]
  exact (noted.write_prints _ _).congr rfl rfl rfl

theorem evaluateLine_error {e : EvalError} (evaluated : s.env.evaluate line = (.error (.error e), env')) :
    s.Prints (errorLine s.config.color e.message) env' (s.evaluateLine source line) := by
  let noted := { s with env := env' }.note (.evaluationFailed s.lines source line.tree e)
  have shown : s.evaluateLine source line = noted.write .writingError (errorLine s.config.color e.message) := by
    simp only [evaluateLine, evaluated]
    rfl
  rw [shown]
  exact (noted.write_prints _ _).congr rfl rfl rfl

theorem evaluateLine_fault {f : Fault} (evaluated : s.env.evaluate line = (.error (.fault f), env')) :
    s.evaluateLine source line = (.error (.fault f), { s with env := env' }) := by
  simp only [evaluateLine, evaluated]

theorem evaluateLine_unshown {result : Result} (evaluated : s.env.evaluate line = (.ok result, env'))
    (hidden : result.isShowable = false) :
    s.evaluateLine source line = (.error (.fault .noShortText), { s with env := env' }) := by
  simp [evaluateLine, evaluated, hidden]

/-- The answer to a line, without its end. -/
inductive Reply (s : Session) (source : Text) : Text → Prop
  | value {line : Line} {x : Number} (read : Parser.parseText source = .ok line)
      (gives : (s.env.exec source).1 = .ok (.value x)) :
      Reply s source (s.echo line ++ (.ofString "= " ++ Format.render s.format x (s.shownRounding line)))
  | defined {line : Line} (read : Parser.parseText source = .ok line) (gives : (s.env.exec source).1 = .ok .defined) :
      Reply s source (s.echo line ++ .ofString "()")
  /-- The text is no line. That it says nothing at all is never the reason. -/
  | refused {e : InputError} (fails : (s.env.exec source).1 = .error (.input e))
      (some_text : ∀ column, e ≠ .emptyExpression column "") : Reply s source (.ofString ("Error: " ++ e.message))
  | failed {line : Line} {e : EvalError} (read : Parser.parseText source = .ok line)
      (fails : (s.env.exec source).1 = .error (.evaluation e)) :
      Reply s source (s.echo line ++ .ofString ("Error: " ++ e.message))

theorem oneLine_echo (read : Parser.parseText source = .ok line) : (s.echo line).OneLine := by
  have tree_ok := (Parser.readableLine_of_parseText read).printsOn.oneLine_text
  unfold echo
  split
  · exact Text.oneLine_ofString.mpr (tree_ok.append (by decide))
  · exact Text.oneLine_nil

theorem oneLine_format (format_ok : s.config.format.OneLine) : s.format.OneLine := by
  unfold format
  split
  · exact Text.oneLine_ofString.mpr (by decide)
  · exact format_ok

theorem oneLine_errorReply {message : String} (told : OneLine message) :
    (Text.ofString ("Error: " ++ message)).OneLine :=
  Text.oneLine_ofString.mpr (.append (by decide) told)

theorem errorLine_false (message : String) :
    errorLine false message = .ofString ("Error: " ++ message) ++ .ofString "\n" := by
  simp [errorLine, Text.ofString]

/-- The line is answered: with a reply that is one line, if there is room for it, and with an error of writing if
there is none. -/
structure Answered (s : Session) (source reply : Text) : Prop where
  one_line : reply.OneLine
  counted : (s.line source).2.lines = s.lines + 1
  written : s.sink.fits (s.sink.lineOf reply) = true →
    (s.line source).1 = .ok () ∧ (s.line source).2.sink.written = s.sink.written ++ s.sink.lineOf reply ∧
      (s.line source).2.env = (s.env.exec source).2 ∧ (s.line source).2.config = s.config
  cut_off : s.sink.fits (s.sink.lineOf reply) = false → ∃ e, (s.line source).1 = .error (.error e)

theorem answered_of_prints (one_line : reply.OneLine)
    (prints : s.counted.Prints (reply ++ .ofString "\n") (s.env.exec source).2 (s.line source)) :
    s.Answered source reply := by
  have bytes : s.counted.sink.bytesFor (reply ++ .ofString "\n") = s.sink.lineOf reply := s.sink.bytesFor_line one_line
  generalize outcome : s.line source = ended at prints
  cases prints with
  | done fits took env config lines =>
    rw [bytes] at fits took
    refine ⟨one_line, ?_, fun _ => ?_, fun full => ?_⟩
    · rw [outcome]
      exact lines
    · rw [outcome]
      exact ⟨rfl, took.written, env, config⟩
    · cases full.symm.trans fits
  | full full lines =>
    rw [bytes] at full
    refine ⟨one_line, ?_, fun fits => ?_, fun _ => ?_⟩
    · rw [outcome]
      exact lines
    · cases full.symm.trans fits
    · rw [outcome]
      exact ⟨_, rfl⟩

theorem answered_of_read (visible : source.isAllBlank = false) (read : Parser.parseText source = .ok line)
    (one_line : reply.OneLine)
    (next : ∀ s' : Session, s'.env = s.env → s'.config = s.config →
      s'.Prints (reply ++ .ofString "\n") (s.env.evaluate line).2 (s'.evaluateLine source line)) :
    s.Answered source (s.echo line ++ reply) := by
  refine answered_of_prints ((oneLine_echo read).append one_line) ?_
  rw [Environment.exec_snd read, List.append_assoc]
  exact line_prints visible read next

theorem answered_refused (plain : s.config.color = false) (visible : source.isAllBlank = false) {e : InputError}
    (refused : Parser.parseText source = .error e) : s.Answered source (.ofString ("Error: " ++ e.message)) := by
  have told := (Parser.parseText_error refused).1
  refine answered_of_prints (oneLine_errorReply told) ?_
  let noted := s.counted.note (.parseFailed (s.lines + 1) source e)
  have prints := noted.write_prints .writingError (errorLine s.config.color e.message)
  rw [line_of_error visible refused, Environment.exec_of_error refused, ← errorLine_false, ← plain]
  exact prints.congr rfl rfl rfl

theorem answered_result (visible : source.isAllBlank = false) (read : Parser.parseText source = .ok line)
    {result : Result} (evaluated : s.env.evaluate line = (.ok result, env')) (showable : result.isShowable = true)
    (one_line : reply.OneLine)
    (shown : resultLine s.format (s.shownRounding line) result = reply ++ .ofString "\n") :
    s.Answered source (s.echo line ++ reply) := by
  refine answered_of_read visible read one_line fun s' env config => ?_
  have prints : s'.Prints _ env' (s'.evaluateLine source line) := evaluateLine_value (env ▸ evaluated) showable
  have format : s'.format = s.format := by rw [Session.format, Session.format, config]
  have rounding : s'.shownRounding line = s.shownRounding line := by rw [shownRounding, shownRounding, format, env]
  rw [format, rounding, shown] at prints
  rw [evaluated]
  exact prints

theorem answered_failed (plain : s.config.color = false) (visible : source.isAllBlank = false)
    (read : Parser.parseText source = .ok line) {e : EvalError}
    (evaluated : s.env.evaluate line = (.error (.error e), env')) (told : OneLine e.message) :
    s.Answered source (s.echo line ++ .ofString ("Error: " ++ e.message)) := by
  refine answered_of_read visible read (oneLine_errorReply told) fun s' env config => ?_
  have prints : s'.Prints _ env' (s'.evaluateLine source line) := evaluateLine_error (env ▸ evaluated)
  rw [config, plain, errorLine_false] at prints
  rw [evaluated]
  exact prints

/-- What stops the session at a line. -/
inductive Stopped (s : Session) (source : Text) (line : Line) : Fault → Prop
  /-- The value has the greatest precision that there is. -/
  | value {x : Number} (gives : (s.env.exec source).1 = .ok (.value x)) (greatest : Number.maxPrec ≤ x.prec)
      (finite : x.mag.isFinite = true) : Stopped s source line .noShortText
  | overlong {text : String} (overlong : s.env.Overlong line.tree text) :
      Stopped s source line (.invalidNumber text .exponentOutOfRange)

theorem reply_of_result (format_ok : s.config.format.OneLine) (visible : source.isAllBlank = false)
    (read : Parser.parseText source = .ok line) {result : Result}
    (evaluated : s.env.evaluate line = (.ok result, env')) (showable : result.isShowable = true) :
    ∃ reply, s.Reply source reply ∧ s.Answered source reply := by
  have gives : (s.env.exec source).1 = .ok result := by
    rw [Environment.exec_eq_ok_iff read, evaluated]
  cases result with
  | defined =>
    have one_line : (Text.ofString "()").OneLine := Text.oneLine_ofString.mpr (by decide)
    exact ⟨_, .defined read gives, answered_result visible read evaluated showable one_line rfl⟩
  | value x =>
    have rendered := Format.oneLine_render (oneLine_format format_ok) x (s.shownRounding line)
    have mark : (Text.ofString "= ").OneLine := Text.oneLine_ofString.mpr (by decide)
    exact ⟨_, .value read gives, answered_result visible read evaluated showable (mark.append rendered) rfl⟩

theorem stopped_of_unshown {x : Number} (visible : source.isAllBlank = false)
    (read : Parser.parseText source = .ok line) (evaluated : s.env.evaluate line = (.ok (.value x), env'))
    (hidden : x.hasShortText = false) :
    s.Stopped source line .noShortText ∧ (s.line source).2.lines = s.lines + 1 ∧ (s.line source).1 ≠ .ok () ∧
      (s.sink.fits (s.sink.bytesFor (s.echo line)) = true → (s.line source).1 = .error (.fault .noShortText)) := by
  have gives : (s.env.exec source).1 = .ok (.value x) := by
    rw [Environment.exec_eq_ok_iff read, evaluated]
  have precise : Number.maxPrec ≤ x.prec ∧ x.mag.isFinite = true := by
    simpa [Number.hasShortText] using hidden
  refine ⟨.value gives precise.1 precise.2, line_stops visible read fun s' env => ?_⟩
  have unshown : (Result.value x).isShowable = false := hidden
  rw [evaluateLine_unshown (env ▸ evaluated) unshown]
  exact ⟨rfl, rfl⟩

/-- A line that is not blank is answered, or stops the session. -/
theorem answered_or_stopped {policy : Policy} (reachable : Reachable policy s.env) (plain : s.config.color = false)
    (format_ok : s.config.format.OneLine) (visible : source.isAllBlank = false) :
    (∃ reply, s.Reply source reply ∧ s.Answered source reply ∧ Reachable policy (s.env.exec source).2 ∧
        ((∀ result, (s.env.exec source).1 ≠ .ok result) →
          (s.env.exec source).2.vars = s.env.vars ∧ (s.env.exec source).2.functions = s.env.functions)) ∨
      ∃ line f, Parser.parseText source = .ok line ∧ s.Stopped source line f ∧
        (s.line source).2.lines = s.lines + 1 ∧ (s.line source).1 ≠ .ok () ∧
        (s.sink.fits (s.sink.bytesFor (s.echo line)) = true → (s.line source).1 = .error (.fault f)) := by
  cases read : Parser.parseText source with
  | error e =>
    have exec : s.env.exec source = _ := Environment.exec_of_error read
    have some_text : ∀ column, e ≠ .emptyExpression column "" := by
      intro column same
      rw [(Parser.parseText_error read).2 column same] at visible
      cases visible
    refine .inl ⟨_, .refused (by rw [exec]) some_text, answered_refused plain visible read, ?_, fun _ => ?_⟩
    · rw [exec]
      exact reachable
    · rw [exec]
      exact ⟨rfl, rfl⟩
  | ok line =>
    have parsed := Parser.parse_of_parseText read
    have settles := reachable.safe.evaluate parsed
    have next := reachable.evaluate parsed
    have exec : s.env.exec source = _ := Environment.exec_of_read read
    generalize evaluated : s.env.evaluate line = outcome at settles next exec
    cases settles with
    | value x =>
      cases shown : x.hasShortText with
      | false => exact .inr ⟨line, _, rfl, stopped_of_unshown visible read evaluated shown⟩
      | true =>
        obtain ⟨reply, gives, answered⟩ := reply_of_result format_ok visible read evaluated shown
        rw [exec]
        exact .inl ⟨reply, gives, answered, next (by rintro f ⟨⟩), fun fails => absurd rfl (fails _)⟩
    | defined =>
      obtain ⟨reply, gives, answered⟩ := reply_of_result format_ok visible read evaluated rfl
      rw [exec]
      exact .inl ⟨reply, gives, answered, next (by rintro f ⟨⟩), fun fails => absurd rfl (fails _)⟩
    | error e =>
      obtain ⟨told, unchanged⟩ := reachable.safe.evaluate_error read (congrArg Prod.fst evaluated)
      have fails : (s.env.exec source).1 = .error (.evaluation e) := by rw [exec]; rfl
      have answered := answered_failed plain visible read evaluated told
      rw [evaluated] at unchanged
      refine .inl ⟨_, .failed read fails, answered, ?_, fun _ => ?_⟩
      · rw [exec]
        exact next (by rintro f ⟨⟩)
      · rw [exec]
        exact unchanged
    | overlong overlong =>
      refine .inr ⟨line, _, rfl, .overlong overlong, line_stops visible read fun s' env => ?_⟩
      rw [evaluateLine_fault (env ▸ evaluated)]
      exact ⟨rfl, rfl⟩

theorem line_of_blank (blank : source.isAllBlank = true) : s.line source = (.ok (), s) := by
  rw [Session.line, if_pos blank]

/-- A session whose answers are lines. -/
structure Orderly (policy : Policy) (s : Session) : Prop where
  reachable : Reachable policy s.env
  plain : s.config.color = false
  format_ok : s.config.format.OneLine

/-- One line, if the session goes on after it. -/
theorem Orderly.next {policy : Policy} (orderly : s.Orderly policy) (visible : source.isAllBlank = false)
    (goes_on : s.line source = (.ok (), s')) :
    s'.Orderly policy ∧ s'.lines = s.lines + 1 ∧
      s'.sink.written.count Sink.newline = s.sink.written.count Sink.newline + 1 := by
  rcases answered_or_stopped orderly.reachable orderly.plain orderly.format_ok visible with
    ⟨reply, -, answered, reachable, -⟩ | ⟨line, f, -, -, -, stops, -⟩
  · have counted := answered.counted
    have fits : s.sink.fits (s.sink.lineOf reply) = true := by
      by_contra full
      obtain ⟨e, failed⟩ := answered.cut_off (Bool.eq_false_iff.mpr full)
      rw [goes_on] at failed
      cases failed
    obtain ⟨-, written, env, config⟩ := answered.written fits
    rw [goes_on] at counted written env config
    dsimp only at counted written env config
    refine ⟨⟨env ▸ reachable, config ▸ orderly.plain, config ▸ orderly.format_ok⟩, counted, ?_⟩
    rw [written, List.count_append, s.sink.count_lineOf answered.one_line]
  · rw [goes_on] at stops
    exact absurd rfl stops

/-- A run that goes on to its end answers each line of its input that is not blank in one line. -/
theorem evaluateItems_answers {policy : Policy} {items : List Input.Item} (orderly : s.Orderly policy)
    (ends : s.evaluateItems items = (.ok (), s')) :
    s'.lines = s.lines + items.countP Input.Item.isVisible ∧
      s'.sink.written.count Sink.newline = s.sink.written.count Sink.newline + items.countP Input.Item.isVisible := by
  induction items generalizing s with
  | nil =>
    cases ends
    exact ⟨rfl, rfl⟩
  | cons item rest ih =>
    cases item with
    | tooLong => cases ends
    | line bytes =>
      rw [evaluateItems] at ends
      generalize stepped : s.line (.ofBytes bytes) = outcome at ends
      obtain ⟨stop | ⟨⟩, s₁⟩ := outcome
      · cases ends
      · cases blank : (Text.ofBytes bytes).isAllBlank with
        | true =>
          rw [line_of_blank blank] at stepped
          cases stepped
          rw [List.countP_cons_of_neg (by simp [Input.Item.isVisible, blank])]
          exact ih orderly ends
        | false =>
          obtain ⟨orderly', lines, newlines⟩ := orderly.next blank stepped
          obtain ⟨all_lines, all_newlines⟩ := ih orderly' ends
          rw [List.countP_cons_of_pos (by simp [Input.Item.isVisible, blank])]
          omega

/-- White space changes nothing. Every other text counts as a line and gets an answer of one line: its tree if the
session shows trees, and then its value, that it defines a function, or an error, after which variables and functions
are what they were. There is no answer if the value has the greatest precision, or if a literal is too long; these
stop the session. -/
theorem line_replies {policy : Policy} (reachable : Reachable policy s.env) (plain : s.config.color = false)
    (format_ok : s.config.format.OneLine) (source : Text) :
    (source.isAllBlank = true → s.line source = (.ok (), s)) ∧
      (source.isAllBlank = false →
        (∃ reply, s.Reply source reply ∧ s.Answered source reply ∧ Reachable policy (s.env.exec source).2 ∧
          ((∀ result, (s.env.exec source).1 ≠ .ok result) →
            (s.env.exec source).2.vars = s.env.vars ∧ (s.env.exec source).2.functions = s.env.functions)) ∨
        ∃ line f, Parser.parseText source = .ok line ∧ s.Stopped source line f ∧
          (s.line source).2.lines = s.lines + 1 ∧ (s.line source).1 ≠ .ok () ∧
          (s.sink.fits (s.sink.bytesFor (s.echo line)) = true → (s.line source).1 = .error (.fault f))) :=
  ⟨line_of_blank, answered_or_stopped reachable plain format_ok⟩

/-- The newline inside of the line is nowhere in its answer. -/
theorem line_replies_division :
    ∃ s : Session, Reachable .rising s.env ∧ s.config.color = false ∧ s.config.format.OneLine ∧
      (Text.ofString "1 /\n0").isAllBlank = false ∧ (s.line (.ofString "1 /\n0")).1 = .ok () ∧
      (s.line (.ofString "1 /\n0")).2.sink.written =
        (Text.ofString "([1] / [0]) : Error: division by zero\n").toBytes := by
  let s : Session := { env := .blank 64, config := { echo := true } }
  have reachable : Reachable .rising s.env := Environment.reachable_blank (by decide)
  have visible : (Text.ofString "1 /\n0").isAllBlank = false := by decide
  have read : Parser.parseText (.ofString "1 /\n0") =
      .ok { tree := .binary .div (.number "1") (.number "0"), vars := [] } := by cbv
  have fails : ((Environment.blank 64).exec (.ofString "1 /\n0")).1 = .error (.evaluation (.zeroDivision "/")) := by cbv
  have echoed : s.echo { tree := .binary .div (.number "1") (.number "0"), vars := [] } =
      .ofString "([1] / [0]) : " := by cbv
  refine ⟨s, reachable, rfl, Text.oneLine_nil, visible, ?_⟩
  rcases (line_replies reachable rfl Text.oneLine_nil (.ofString "1 /\n0")).2 visible with
    ⟨reply, gives, answered, -⟩ | ⟨line, f, read', stopped, -⟩
  · have same : reply = .ofString "([1] / [0]) : Error: division by zero" := by
      cases gives with
      | value _ gives | defined _ gives => cases fails.symm.trans gives
      | refused refused => cases fails.symm.trans refused
      | failed read' failed =>
        cases fails.symm.trans failed
        cases read.symm.trans read'
        rw [echoed]
        decide
    obtain ⟨ok, written, -⟩ := answered.written rfl
    rw [same] at written
    exact ⟨ok, written⟩
  · cases read.symm.trans read'
    cases stopped with
    | value gives => cases fails.symm.trans gives
    | overlong overlong =>
      obtain ⟨own | ⟨name, f, found, -⟩, long, -⟩ := overlong
      · simp only [Tree.nodes, List.cons_append, List.nil_append, List.mem_cons, reduceCtorEq, Tree.number.injEq,
          List.not_mem_nil, or_false, false_or] at own
        rcases own with rfl | rfl <;> exact absurd long (by decide)
      · cases found

/-- Without a bound on the precision lines need not be answered. -/
theorem line_unanswered :
    ∃ s : Session, Reachable .rising s.env ∧ s.config.color = false ∧ s.config.format.OneLine ∧ s.sink.room = none ∧
      (Text.ofString "1").isAllBlank = false ∧ (s.line (.ofString "1")).1 = .error (.fault .noShortText) ∧
      (s.line (.ofString "1")).2.sink.written = [] := by
  refine ⟨{ env := .blank 4294967295, config := {} }, Environment.reachable_blank (by decide), rfl, Text.oneLine_nil,
    rfl, by decide, by cbv, by cbv⟩

end Session

end Abacus
