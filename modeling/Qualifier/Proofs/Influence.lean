import Mathlib.Data.List.Forall2
import Qualifier.Proofs.Level
import Qualifier.Scope

/-!
# What an environment can influence

An environment is asked for the values of operands and for nothing else. So all that an evaluation
can tell about it are these values, in the order in which the operands stand (`Operand.values`). The
main statement is `Expression.evaluate_answer_eq`: evaluations of the same lexemes in any two
environments have the same answer if the operands have the same values, and so they have if the
scopes agree on what the operands name, or differ only in data without a value of their own.

Two runs of the pass are compared lexeme by lexeme. `Stack.Together` says which relations between
the two hold all along: those that operands keep, and that no level can break, whose answer and
label depend on the label alone (`Reduction.IgnoresTrail`).
-/

namespace Qualifier

/-! ### Operands -/

/-- The operand that a lexeme is. -/
def Lexeme.operand? : Lexeme → Option Operand
  | .operand text _ => some (.ofText text)
  | .operator .. | .opening _ | .closing _ => none

/-- The operands of an expression, in their order. -/
def Expression.operands (lexemes : List Lexeme) : List Operand :=
  lexemes.filterMap Lexeme.operand?

namespace Operand

section

variable {σ : Type} (env : Environment σ)

/-- The values of operands that are looked up one after the other. -/
def values : List Operand → σ → List Value
  | [], _ => []
  | operand :: rest, world =>
    let (value, world) := operand.resolve env world
    value :: values rest world

/-- The datum that an operand reads, if it is a reference that leads to one. -/
def read? (operand : Operand) (world : σ) : Option Host :=
  match operand with
  | .literal _ => none
  | .call name => (env.callback? name).map fun callback ↦ (callback world).1
  | .path root segments => (env.datum? root).bind fun datum ↦ (datum.descend segments).toOption

/-- The data that operands read which are looked up one after the other. -/
def reads : List Operand → σ → List (Option Host)
  | [], _ => []
  | operand :: rest, world => operand.read? env world :: reads rest (operand.resolve env world).2

/-- The value of an operand, given what it reads. -/
def valueOf (operand : Operand) (datum? : Option Host) : Value :=
  match operand with
  | .literal text => .ofLiteral text
  | .path .. | .call _ => (datum?.map Value.ofHost).getD .null

theorem resolve_fst (operand : Operand) (world : σ) :
    (operand.resolve env world).1 = operand.valueOf (operand.read? env world) := by
  cases operand with
  | literal text => rfl
  | call name =>
    simp only [resolve, lookUp, valueOf, read?]
    cases env.callback? name <;> rfl
  | path root segments =>
    simp only [resolve, lookUp, valueOf, read?]
    cases env.datum? root with
    | none => rfl
    | some datum =>
      dsimp only [Option.bind_some]
      cases datum.descend segments <;> rfl

end

/-- What has been read has no value of its own: there was nothing to read, or it is a null, an array
or an object. -/
def IsVoid : Option Host → Prop
  | none | some .null | some (.array _) | some (.object _) => True
  | some (.bool _) | some (.number _) | some (.string _) => False

/-- The same has been read, or nothing that has a value of its own. -/
def Alike (datum? datum?' : Option Host) : Prop :=
  datum? = datum?' ∨ IsVoid datum? ∧ IsVoid datum?'

theorem valueOf_of_isVoid {datum? : Option Host} (h : IsVoid datum?) (operand : Operand) :
    operand.valueOf datum? = operand.valueOf none := by
  have hnull : (datum?.map Value.ofHost).getD .null = .null := by
    cases datum? with
    | none => rfl
    | some datum =>
      cases datum with
      | null | array | object => rfl
      | bool | number | string => exact h.elim
  cases operand with
  | literal => rfl
  | call | path => exact hnull

theorem Alike.valueOf_eq {datum? datum?' : Option Host} (h : Alike datum? datum?')
    (operand : Operand) : operand.valueOf datum? = operand.valueOf datum?' := by
  obtain rfl | ⟨hvoid, hvoid'⟩ := h
  · rfl
  · rw [valueOf_of_isVoid hvoid, valueOf_of_isVoid hvoid']

/-- Operands that read alike have the same values. -/
theorem values_eq_of_alike {σ τ : Type} (env : Environment σ) (env' : Environment τ)
    (operands : List Operand) {world : σ} {world' : τ}
    (h : List.Forall₂ Alike (reads env operands world) (reads env' operands world')) :
    values env operands world = values env' operands world' := by
  induction operands generalizing world world' with
  | nil => rfl
  | cons operand rest ih =>
    obtain ⟨hfirst, hrest⟩ := List.forall₂_cons.1 h
    show (operand.resolve env world).1 :: _ = (operand.resolve env' world').1 :: _
    rw [resolve_fst, resolve_fst, hfirst.valueOf_eq]
    exact congrArg _ (ih hrest)

end Operand

/-! ### Levels -/

/-- The answer of a computation and the label that it leaves depend on the label that it is given
alone. -/
def Reduction.IgnoresTrail {α : Type} (m : Reduction α) : Prop :=
  ∀ {ledger ledger' : Ledger}, ledger.label = ledger'.label →
    (m.run ledger).1 = (m.run ledger').1 ∧ (m.run ledger).2.label = (m.run ledger').2.label

namespace Expression

theorem ignoresTrail_finish (queue : Queue) (position : Nat) :
    (finish queue position).IgnoresTrail := by
  intro ledger ledger' hlabel
  cases hcheck : queue.check position with
  | error fault =>
    rw [finish, hcheck]
    exact ⟨rfl, hlabel⟩
  | ok =>
    rw [finish_of_check hcheck]
    obtain ⟨tree, hbound, hinner, rfl⟩ := Queue.exists_tree hcheck
    obtain ⟨trail, hrun⟩ := Tree.run_collapse_entries hbound hinner ledger
    obtain ⟨trail', hrun'⟩ := Tree.run_collapse_entries hbound hinner ledger'
    rw [hrun, hrun', hlabel]
    cases tree.outcome ledger'.label <;> exact ⟨rfl, rfl⟩

theorem ignoresTrail_conclude (queue : Queue) : (conclude queue).IgnoresTrail := by
  obtain ⟨_, _, _, rfl⟩ | hfinish := eq_literal_or_conclude_eq queue
  · exact fun hlabel ↦ ⟨rfl, hlabel⟩
  · rw [hfinish]
    exact ignoresTrail_finish queue 0

end Expression

/-! ### Two runs -/

section

variable {σ τ α β : Type} {R S : Progress σ → Progress τ → Prop} {m : Evaluation σ α}
  {m' : Evaluation τ α} {f : α → Evaluation σ β} {f' : α → Evaluation τ β} {progress : Progress σ}
  {progress' : Progress τ}

/-- Two runs have the same answer, and what they leave is related. -/
def Matches (R : Progress σ → Progress τ → Prop) (run : Except Error α × Progress σ)
    (run' : Except Error α × Progress τ) : Prop :=
  run.1 = run'.1 ∧ R run.2 run'.2

theorem Matches.bind (hm : Matches R (m.run progress) (m'.run progress'))
    (hfailed : ∀ {progress progress'}, R progress progress' → S progress progress')
    (hf : ∀ a {progress progress'}, R progress progress' →
      Matches S ((f a).run progress) ((f' a).run progress')) :
    Matches S ((m >>= f).run progress) ((m' >>= f').run progress') := by
  rcases hrun : m.run progress with ⟨answer, between⟩
  rcases hrun' : m'.run progress' with ⟨answer', between'⟩
  rw [hrun, hrun'] at hm
  obtain ⟨rfl, hbetween⟩ : answer = answer' ∧ R between between' := hm
  cases answer with
  | error e =>
    rw [run_bind_of_error hrun, run_bind_of_error hrun']
    exact ⟨rfl, hfailed hbetween⟩
  | ok a =>
    rw [run_bind_of_ok hrun, run_bind_of_ok hrun']
    exact hf a hbetween

end

namespace Stack

variable {σ τ : Type}

/-- A relation between two runs, given the lexemes that are left: once it holds, it holds all
along. -/
structure Together (env : Environment σ) (env' : Environment τ)
    (R : List Lexeme → Progress σ → Progress τ → Prop) : Prop where
  /-- An operand has the same value in both. -/
  operand : ∀ {text span rest progress progress'},
    R (.operand text span :: rest) progress progress' →
      ((Operand.ofText text).lookUp env progress).1 =
          ((Operand.ofText text).lookUp env' progress').1 ∧
        R rest ((Operand.ofText text).lookUp env progress).2
          ((Operand.ofText text).lookUp env' progress').2
  /-- Other lexemes ask for nothing. -/
  other : ∀ {lexeme rest progress progress'}, lexeme.operand? = none →
    R (lexeme :: rest) progress progress' → R rest progress progress'
  /-- Levels end in the same way. -/
  level : ∀ {m : Reduction Value} {rest progress progress'}, m.IgnoresTrail →
    R rest progress progress' →
      Matches (R rest) (m.within.run progress) (m.within.run progress')

namespace Together

variable {env : Environment σ} {env' : Environment τ}
  {R : List Lexeme → Progress σ → Progress τ → Prop} (limit : Nat)
  (h : Together env env' R) {progress : Progress σ} {progress' : Progress τ}

include h

/-- A lexeme does the same in both runs. -/
theorem step (stack : Stack) {lexeme : Lexeme} {rest : List Lexeme}
    (hstart : R (lexeme :: rest) progress progress') :
    Matches (R rest) ((stack.step env limit lexeme).run progress)
      ((stack.step env' limit lexeme).run progress') := by
  obtain ⟨base, frames⟩ := stack
  cases lexeme with
  | operand text span =>
    obtain ⟨hvalue, hnext⟩ := h.operand hstart
    refine ⟨?_, hnext⟩
    show Except.ok (append [.operand ((Operand.ofText text).lookUp env progress).1 _ _] _) =
      Except.ok (append [.operand ((Operand.ofText text).lookUp env' progress').1 _ _] _)
    rw [hvalue]
  | operator op span => exact ⟨rfl, h.other rfl hstart⟩
  | opening span =>
    simp only [Stack.step]
    split
    · exact ⟨rfl, h.other rfl hstart⟩
    · exact ⟨rfl, h.other rfl hstart⟩
  | closing span =>
    have hnext := h.other rfl hstart
    cases frames with
    | nil => exact ⟨rfl, hnext⟩
    | cons frame below =>
      have hlevel := h.level (Expression.ignoresTrail_finish frame.queue frame.position) hnext
      exact hlevel.bind id fun _ _ _ hafter ↦ ⟨rfl, hafter⟩

/-- All lexemes do the same in both runs, and so does the end. -/
theorem resume (stack : Stack) {lexemes : List Lexeme} (hstart : R lexemes progress progress') :
    Matches (fun progress progress' ↦ ∃ rest, R rest progress progress')
      ((stack.resume env limit lexemes).run progress)
      ((stack.resume env' limit lexemes).run progress') := by
  induction lexemes generalizing stack progress progress' with
  | nil =>
    rw [resume_nil, resume_nil]
    obtain ⟨base, frames⟩ := stack
    cases frames with
    | nil =>
      obtain ⟨hanswer, hend⟩ := h.level (Expression.ignoresTrail_conclude base) hstart
      exact ⟨hanswer, [], hend⟩
    | cons => exact ⟨rfl, [], hstart⟩
  | cons lexeme rest ih =>
    rw [resume_cons, resume_cons]
    exact (h.step limit stack hstart).bind (fun hrest ↦ ⟨rest, hrest⟩) fun next _ _ hrest ↦
      ih next hrest

end Together

end Stack

namespace Expression

/-- So the two runs are evaluated together. -/
theorem evaluate_together {σ τ : Type} {env : Environment σ} {env' : Environment τ}
    {R : List Lexeme → Progress σ → Progress τ → Prop} (h : Stack.Together env env' R) (limit : Nat)
    {lexemes : List Lexeme} (label : String) (world : σ) (world' : τ)
    (hstart : R lexemes ⟨⟨label, #[]⟩, world⟩ ⟨⟨label, #[]⟩, world'⟩) :
    ∃ answer rest progress progress', R rest progress progress' ∧
      evaluate env limit lexemes label world = report answer progress ∧
      evaluate env' limit lexemes label world' = report answer progress' := by
  obtain ⟨hanswer, rest, hrest⟩ := h.resume limit .empty hstart
  exact ⟨_, rest, _, _, hrest, evaluate_eq_report rfl,
    evaluate_eq_report (Prod.ext hanswer.symm rfl)⟩

/-! ### Values -/

section

variable {σ τ : Type} (env : Environment σ) (env' : Environment τ)

/-- The operands that are left have the same values in both runs. -/
theorem together_values : Stack.Together env env' fun rest progress progress' ↦
    progress.label = progress'.label ∧
      Operand.values env (operands rest) progress.world =
        Operand.values env' (operands rest) progress'.world where
  operand := by
    intro text span rest progress progress' ⟨hlabel, hvalues⟩
    obtain ⟨trail, hrun⟩ := Operand.lookUp_eq env (.ofText text) progress
    obtain ⟨trail', hrun'⟩ := Operand.lookUp_eq env' (.ofText text) progress'
    obtain ⟨hvalue, hrest⟩ := List.cons.inj hvalues
    rw [hrun, hrun']
    exact ⟨hvalue, hlabel, hrest⟩
  other := by
    intro lexeme rest progress progress' hlexeme ⟨hlabel, hvalues⟩
    rw [operands, List.filterMap_cons_none hlexeme] at hvalues
    exact ⟨hlabel, hvalues⟩
  level := by
    intro m rest progress progress' hm ⟨hlabel, hvalues⟩
    obtain ⟨hanswer, hafter⟩ := hm hlabel
    exact ⟨hanswer, hafter, hvalues⟩

/-- The answer depends on the values of the operands alone. -/
theorem answer_eq_of_values {lexemes : List Lexeme} {world : σ} {world' : τ}
    (h : Operand.values env (operands lexemes) world =
      Operand.values env' (operands lexemes) world') (limit : Nat) (label : String) :
    (evaluate env limit lexemes label world).answer =
      (evaluate env' limit lexemes label world').answer := by
  obtain ⟨answer, _, progress, progress', ⟨hlabel, -⟩, hrun, hrun'⟩ :=
    evaluate_together (together_values env env') limit label world world' ⟨rfl, h⟩
  rw [hrun, hrun', report, report, hlabel]

end

end Expression

/-! ### Scopes -/

namespace Scope

/-- The scopes agree on what operands name: on data at the roots of paths, and on callbacks. -/
structure AgreeOn (operands : List Operand) (scope scope' : Scope) : Prop where
  /-- The same data are bound to the roots of paths. -/
  data : ∀ {root segments}, Operand.path root segments ∈ operands →
    scope.data.find? root = scope'.data.find? root
  /-- The same callbacks are registered under the names of calls. -/
  callbacks : ∀ {name}, Operand.call name ∈ operands →
    scope.callbacks.find? name = scope'.callbacks.find? name

variable {operands : List Operand} {scope scope' : Scope}

/-- It does not matter what is bound to a name that is no root of a path, -/
theorem agreeOn_bind {name : String} (h : ∀ segments, Operand.path name segments ∉ operands)
    (scope : Scope) (datum : Host) : AgreeOn operands scope (scope.bind name datum) where
  data hmem := by
    rw [bind, Dict.find?_insert, if_neg]
    rintro rfl
    exact h _ hmem
  callbacks _ := rfl

/-- nor what is registered under a name that is not called. -/
theorem agreeOn_register {name : String} (h : Operand.call name ∉ operands) (scope : Scope)
    (callback : Callback) : AgreeOn operands scope (scope.register name callback) where
  data _ := rfl
  callbacks hmem := by
    rw [register, Dict.find?_insert, if_neg]
    rintro rfl
    exact h hmem

/-- The callbacks that operands name have come equally far. -/
def LevelOn (operands : List Operand) (now now' : Dict Callback) : Prop :=
  ∀ name, Operand.call name ∈ operands → now.find? name = now'.find? name

/-- In scopes that agree an operand is looked up in the same way. -/
theorem lookUp_of_agreeOn {operand : Operand} (hagree : AgreeOn (operand :: operands) scope scope')
    {now now' : Dict Callback} (hlevel : LevelOn (operand :: operands) now now') (ledger : Ledger) :
    (operand.lookUp scope.environment ⟨ledger, now⟩).1 =
        (operand.lookUp scope'.environment ⟨ledger, now'⟩).1 ∧
      (operand.lookUp scope.environment ⟨ledger, now⟩).2.toLedger =
        (operand.lookUp scope'.environment ⟨ledger, now'⟩).2.toLedger ∧
      LevelOn operands (operand.lookUp scope.environment ⟨ledger, now⟩).2.world
        (operand.lookUp scope'.environment ⟨ledger, now'⟩).2.world := by
  have hrest : LevelOn operands now now' :=
    fun name hmem ↦ hlevel name (List.mem_cons_of_mem _ hmem)
  cases operand with
  | literal => exact ⟨rfl, rfl, hrest⟩
  | path root segments =>
    simp only [Operand.lookUp, environment, hagree.data List.mem_cons_self]
    cases scope'.data.find? root with
    | none => exact ⟨rfl, rfl, hrest⟩
    | some datum =>
      dsimp only
      cases datum.descend segments with
      | ok => exact ⟨rfl, rfl, hrest⟩
      | error => exact ⟨rfl, rfl, hrest⟩
  | call name =>
    simp only [Operand.lookUp, environment, hagree.callbacks List.mem_cons_self]
    cases scope'.callbacks.find? name with
    | none => exact ⟨rfl, rfl, hrest⟩
    | some callback =>
      dsimp only [Option.map_some]
      rw [hlevel name List.mem_cons_self]
      refine ⟨rfl, rfl, fun other hmem ↦ ?_⟩
      show (now.insert name _).find? other = (now'.insert name _).find? other
      rw [Dict.find?_insert, Dict.find?_insert, hrest other hmem]

/-- Two scopes go together that agree on the operands that are left, if the callbacks have come
equally far. -/
theorem together_scopes (scope scope' : Scope) :
    Stack.Together scope.environment scope'.environment fun rest progress progress' ↦
      progress.toLedger = progress'.toLedger ∧
        AgreeOn (Expression.operands rest) scope scope' ∧
        LevelOn (Expression.operands rest) progress.world progress'.world where
  operand := by
    rintro text span rest ⟨ledger, now⟩ ⟨_, now'⟩ ⟨rfl, hagree, hlevel⟩
    obtain ⟨hvalue, hledger, hrest⟩ := lookUp_of_agreeOn hagree hlevel ledger
    exact ⟨hvalue, hledger, ⟨fun hmem ↦ hagree.data (List.mem_cons_of_mem _ hmem),
      fun hmem ↦ hagree.callbacks (List.mem_cons_of_mem _ hmem)⟩, hrest⟩
  other := by
    intro lexeme rest progress progress' hlexeme ⟨hledger, h⟩
    rw [Expression.operands, List.filterMap_cons_none hlexeme] at h
    exact ⟨hledger, h⟩
  level := by
    rintro m rest ⟨ledger, now⟩ ⟨_, now'⟩ - ⟨rfl, h⟩
    exact ⟨rfl, rfl, h⟩

end Scope

namespace Expression

variable {lexemes : List Lexeme}

/-- In scopes that agree on the operands, an expression has the same answer and the same trail. -/
theorem answer_eq_of_agreeOn {scope scope' : Scope}
    (h : Scope.AgreeOn (operands lexemes) scope scope') (limit : Nat) (label : String) :
    (evaluate scope.environment limit lexemes label scope.callbacks).answer =
        (evaluate scope'.environment limit lexemes label scope'.callbacks).answer ∧
      (evaluate scope.environment limit lexemes label scope.callbacks).trail =
        (evaluate scope'.environment limit lexemes label scope'.callbacks).trail := by
  obtain ⟨answer, _, progress, progress', ⟨hledger, -⟩, hrun, hrun'⟩ :=
    evaluate_together (Scope.together_scopes scope scope') limit label scope.callbacks
      scope'.callbacks ⟨rfl, h, fun _ hmem ↦ h.callbacks hmem⟩
  rw [hrun, hrun', report, report, hledger]
  exact ⟨rfl, rfl⟩

/-- An environment influences the answer of an evaluation only through the values of the operands,
in the order in which they stand. So it does not matter what scopes have under names that no operand
names, and neither does it matter whether a reference reads a null, an array or an object or is not
bound at all. -/
theorem evaluate_answer_eq (limit : Nat) (lexemes : List Lexeme) (label : String) :
    (∀ {σ τ : Type} (env : Environment σ) (env' : Environment τ) (world : σ) (world' : τ),
      Operand.values env (operands lexemes) world = Operand.values env' (operands lexemes) world' →
        (evaluate env limit lexemes label world).answer =
          (evaluate env' limit lexemes label world').answer) ∧
      (∀ scope scope' : Scope, Scope.AgreeOn (operands lexemes) scope scope' →
        (evaluate scope.environment limit lexemes label scope.callbacks).answer =
            (evaluate scope'.environment limit lexemes label scope'.callbacks).answer ∧
          (evaluate scope.environment limit lexemes label scope.callbacks).trail =
            (evaluate scope'.environment limit lexemes label scope'.callbacks).trail) ∧
      ∀ {σ τ : Type} (env : Environment σ) (env' : Environment τ) (world : σ) (world' : τ),
        List.Forall₂ Operand.Alike (Operand.reads env (operands lexemes) world)
          (Operand.reads env' (operands lexemes) world') →
        (evaluate env limit lexemes label world).answer =
          (evaluate env' limit lexemes label world').answer :=
  ⟨fun env env' _ _ h ↦ answer_eq_of_values env env' h limit label,
    fun _ _ h ↦ answer_eq_of_agreeOn h limit label,
    fun env env' _ _ h ↦
      answer_eq_of_values env env' (Operand.values_eq_of_alike env env' _ h) limit label⟩

/-- In `$a as @f` it does not matter whether `a` is bound to an array or to nothing, whether there
is anything under `b`, and where the text comes from that `f` gives. -/
theorem evaluate_answer_eq_of_array :
    let lexemes : List Lexeme := [.operand "$a" ⟨0, 2⟩, .operator .naming ⟨3, 5⟩,
      .operand "@f" ⟨6, 8⟩]
    let scope : Scope := Scope.empty.register "f" (.fixed (.string "x"))
    let bound : Scope := scope.bind "a" (.array [.null])
    let constant : Environment Unit := ⟨fun _ ↦ none, fun _ ↦ some fun _ ↦ (.string "x", ())⟩
    let answer (scope : Scope) :=
      (evaluate scope.environment 1 lexemes "start" scope.callbacks).answer
    Operand.reads bound.environment (operands lexemes) bound.callbacks =
        [some (.array [.null]), some (.string "x")] ∧
      Operand.reads scope.environment (operands lexemes) scope.callbacks =
        [none, some (.string "x")] ∧
      answer bound = answer scope ∧
      answer bound = answer (bound.bind "b" .null) ∧
      answer bound = (evaluate constant 1 lexemes "start" ()).answer ∧
      answer scope = .ok ⟨.null, "x"⟩ := by
  intro lexemes scope bound constant answer
  have hreads : Operand.reads bound.environment (operands lexemes) bound.callbacks =
      [some (.array [.null]), some (.string "x")] := rfl
  have hreads' : Operand.reads scope.environment (operands lexemes) scope.callbacks =
      [none, some (.string "x")] := rfl
  have hvoid : List.Forall₂ Operand.Alike
      (Operand.reads bound.environment (operands lexemes) bound.callbacks)
      (Operand.reads scope.environment (operands lexemes) scope.callbacks) := by
    rw [hreads, hreads']
    exact .cons (.inr ⟨trivial, trivial⟩) (.cons (.inl rfl) .nil)
  have hother : Scope.AgreeOn (operands lexemes) bound (bound.bind "b" .null) := by
    have hoperands : operands lexemes = [.path "a" [], .call "f"] := rfl
    exact Scope.agreeOn_bind (by simp [hoperands]) bound .null
  have hanswer : answer scope = .ok ⟨.null, "x"⟩ := by
    show (evaluate scope.environment 1 lexemes "start" scope.callbacks).answer = _
    rw [evaluate, value_eq_pass]
    rfl
  obtain ⟨hvalues, hagree, halike⟩ := evaluate_answer_eq 1 lexemes "start"
  exact ⟨hreads, hreads', halike _ _ _ _ hvoid, (hagree _ _ hother).1,
    hvalues bound.environment constant bound.callbacks () rfl, hanswer⟩

end Expression

end Qualifier
