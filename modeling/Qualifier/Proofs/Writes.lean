import Qualifier.Proofs.Influence
import Qualifier.Session

/-!
# Writing to a scope

A scope is filled by writes: data and records are bound to names, and callbacks are registered under
names. Whatever writes there have been, all that can be told about them is the last to each name
that succeeded, of data and of callbacks apart. The main statement is `Scope.last_write_wins`.

Both halves of a scope are dictionaries, and so are the objects that maps become. The rule for all
three is one: what is read in the end is what was written last (`read_foldl`). A record that is
refused writes nothing, and it is refused for any key in it that cannot be made text, however deep
(`Record.exists_toHost_eq_error_iff`). That scopes with the same last writes have the same effect on
every expression is a matter of what an environment can influence (`Scope.SameLast.agreeOn`).

`Session.step_of_write?` says that the steps of a session that bind and register are these writes.
-/

namespace Qualifier

/-! ### The last write -/

section

variable {α β γ : Type} {f : β → α → β} (read : β → Option γ) (wrote : α → Option γ)

/-- If what is read after each step is what the step wrote, or else what was read before, then what
is read in the end is what was written last. -/
theorem read_foldl (h : ∀ b a, read (f b a) = (wrote a).or (read b)) (l : List α) (b : β) :
    read (l.foldl f b) = (l.filterMap wrote).getLast?.or (read b) := by
  induction l generalizing b with
  | nil => rfl
  | cons a rest ih =>
    rw [List.foldl_cons, ih, h, List.filterMap_cons]
    cases wrote a with
    | none => rfl
    | some c =>
      rw [List.getLast?_cons]
      cases (rest.filterMap wrote).getLast? <;> rfl

end

namespace Dict

variable {α : Type}

/-- What is read after a write is what was written, or else what was read before. -/
theorem find?_insert_eq_or (d : Dict α) (key : String) (value : α) (k : String) :
    (d.insert key value).find? k = (if key = k then some value else none).or (d.find? k) := by
  rw [find?_insert]
  split <;> rfl

/-- A dictionary has the last of the bindings that were written. -/
theorem find?_ofList (bindings : List (String × α)) (key : String) :
    (ofList bindings).find? key =
      (bindings.filterMap fun (k, value) ↦ if k = key then some value else none).getLast? := by
  have hlast := read_foldl (fun d : Dict α ↦ d.find? key) _
    (fun d binding ↦ d.find?_insert_eq_or binding.1 binding.2 key) bindings ∅
  rw [find?_empty, Option.or_none] at hlast
  exact hlast

end Dict

/-! ### Records -/

namespace Record

mutual

/-- The keys of a record, at any depth. -/
def keys : Record → List Key
  | .host _ => []
  | .sequence items => itemKeys items
  | .map pairs => pairKeys pairs

/-- The keys in the items of a sequence. -/
def itemKeys : List Record → List Key
  | [] => []
  | record :: rest => keys record ++ itemKeys rest

/-- The keys of a map, and those in its records. -/
def pairKeys : List (Key × Record) → List Key
  | [] => []
  | (key, record) :: rest => key :: (keys record ++ pairKeys rest)

end

end Record

/-- A sequence of steps succeeds if each of them does. -/
theorem isOk_bind {ε α β : Type} (m : Except ε α) {f : α → Except ε β} {b : Bool}
    (hf : ∀ a, (f a).isOk = b) : (m >>= f).isOk = (m.isOk && b) := by
  cases m with
  | error => rfl
  | ok a => exact hf a

theorem Key.isOk_asText (key : Key) : key.asText.isOk ↔ Key.unusable ≠ key := by
  cases key <;> simp [asText, Except.isOk, Except.toBool]

namespace Record

mutual

/-- A record amounts to a datum exactly if all its keys can be made text. -/
theorem isOk_toHost : ∀ record : Record, record.toHost.isOk ↔ Key.unusable ∉ record.keys
  | .host _ => by simp [toHost, keys, Except.isOk, Except.toBool]
  | .sequence items => by
    rw [toHost, isOk_bind (b := true) _ fun _ ↦ rfl, Bool.and_true, isOk_toItems, keys]
  | .map pairs => by
    rw [toHost, isOk_bind (b := true) _ fun _ ↦ rfl, Bool.and_true, isOk_toBindings, keys]

theorem isOk_toItems : ∀ items : List Record,
    (toItems items).isOk ↔ Key.unusable ∉ itemKeys items
  | [] => by simp [toItems, itemKeys, Except.isOk, Except.toBool]
  | record :: rest => by
    rw [toItems, isOk_bind _ fun _ ↦ isOk_bind (b := true) _ fun _ ↦ rfl, Bool.and_true,
      Bool.and_eq_true, isOk_toHost, isOk_toItems, itemKeys, List.mem_append, not_or]

theorem isOk_toBindings : ∀ pairs : List (Key × Record),
    (toBindings pairs).isOk ↔ Key.unusable ∉ pairKeys pairs
  | [] => by simp [toBindings, pairKeys, Except.isOk, Except.toBool]
  | (key, record) :: rest => by
    rw [toBindings, isOk_bind _ fun _ ↦ isOk_bind _ fun _ ↦ isOk_bind (b := true) _ fun _ ↦ rfl,
      Bool.and_true, Bool.and_eq_true, Bool.and_eq_true, Key.isOk_asText, isOk_toHost,
      isOk_toBindings, pairKeys, List.mem_cons, List.mem_append, not_or, not_or]

end

/-- A record is refused exactly if there is a key in it, at any depth, that cannot be made text. -/
theorem exists_toHost_eq_error_iff (record : Record) :
    (∃ e, record.toHost = .error e) ↔ Key.unusable ∈ record.keys := by
  have hok := isOk_toHost record
  cases hrecord : record.toHost with
  | error e =>
    rw [hrecord] at hok
    exact iff_of_true ⟨e, rfl⟩ (Classical.not_not.1 fun h ↦ nomatch hok.2 h)
  | ok datum =>
    rw [hrecord] at hok
    exact iff_of_false nofun (hok.1 rfl)

/-- The bindings of a map, with the texts that its keys are made. -/
theorem toBindings_cons_eq_ok {key : Key} {record : Record} {rest : List (Key × Record)}
    {bindings : List (String × Host)} (h : toBindings ((key, record) :: rest) = .ok bindings) :
    ∃ text datum later, key.asText = .ok text ∧ record.toHost = .ok datum ∧
      toBindings rest = .ok later ∧ bindings = (text, datum) :: later := by
  rw [toBindings] at h
  cases htext : key.asText with
  | error =>
    rw [htext] at h
    cases h
  | ok text =>
    cases hdatum : record.toHost with
    | error =>
      rw [htext, hdatum] at h
      cases h
    | ok datum =>
      cases hlater : toBindings rest with
      | error =>
        rw [htext, hdatum, hlater] at h
        cases h
      | ok later =>
        rw [htext, hdatum, hlater] at h
        cases h
        exact ⟨text, datum, later, rfl, rfl, rfl, rfl⟩

/-- What the pairs of a map write to a field: the data of those whose key is made its name. -/
def writes (field : String) (pairs : List (Key × Record)) : List Host :=
  pairs.filterMap fun (key, record) ↦
    if key.asText.toOption = some field then record.toHost.toOption else none

theorem filterMap_toBindings {pairs : List (Key × Record)} {bindings : List (String × Host)}
    (h : toBindings pairs = .ok bindings) (field : String) :
    bindings.filterMap (fun (text, datum) ↦ if text = field then some datum else none) =
      writes field pairs := by
  induction pairs generalizing bindings with
  | nil =>
    cases h
    rfl
  | cons pair rest ih =>
    obtain ⟨key, record⟩ := pair
    obtain ⟨text, datum, later, htext, hdatum, hlater, rfl⟩ := toBindings_cons_eq_ok h
    rw [writes, List.filterMap_cons, List.filterMap_cons, ih hlater]
    simp only [htext, hdatum, Except.toOption, Option.some.injEq]
    by_cases hfield : text = field
    · simp only [if_pos hfield]
      rfl
    · simp only [if_neg hfield]
      rfl

/-- A map that is not refused amounts to an object, in which each field has the datum of the last
pair whose key is made its name. -/
theorem exists_object_of_map {pairs : List (Key × Record)} {datum : Host}
    (h : (Record.map pairs).toHost = .ok datum) :
    ∃ fields, datum = .object fields ∧
      ∀ field, fields.find? field = (writes field pairs).getLast? := by
  rw [toHost] at h
  cases hbindings : toBindings pairs with
  | error =>
    rw [hbindings] at h
    cases h
  | ok bindings =>
    rw [hbindings] at h
    cases h
    refine ⟨_, rfl, fun field ↦ ?_⟩
    rw [Dict.find?_ofList, filterMap_toBindings hbindings]

end Record

/-! ### Writes -/

namespace Scope

/-- A write to a scope. -/
inductive Write where
  /-- Binds a datum to a name. -/
  | bind (name : String) (datum : Host)
  /-- Binds a record to a name. -/
  | bindRecord (name : String) (record : Record)
  /-- Registers a callback under a name. -/
  | register (name : String) (callback : Callback)

/-- What a name can stand for. -/
inductive Half where
  | datum | callback
deriving DecidableEq

namespace Write

/-- What is written: which half of the scope, and the name. -/
def target : Write → Half × String
  | .bind name _ | .bindRecord name _ => (.datum, name)
  | .register name _ => (.callback, name)

/-- The datum that is written to a name, if the write succeeds. -/
def datum? (name : String) : Write → Option Host
  | .bind other datum => if other = name then some datum else none
  | .bindRecord other record => if other = name then record.toHost.toOption else none
  | .register .. => none

/-- The callback that is written to a name. -/
def callback? (name : String) : Write → Option Callback
  | .register other callback => if other = name then some callback else none
  | .bind .. | .bindRecord .. => none

end Write

/-- Whether a write succeeds, and the scope after it. -/
def write (scope : Scope) : Write → Except BindError Unit × Scope
  | .bind name datum => (.ok (), scope.bind name datum)
  | .bindRecord name record =>
    match scope.bindRecord name record with
    | .ok scope => (.ok (), scope)
    | .error e => (.error e, scope)
  | .register name callback => (.ok (), scope.register name callback)

/-- The scope after writes. -/
def after (scope : Scope) (writes : List Write) : Scope :=
  writes.foldl (fun scope write ↦ (scope.write write).2) scope

variable (scope : Scope) (write : Write)

/-- A write that fails changes nothing. -/
theorem write_of_error {e : BindError} (h : (scope.write write).1 = .error e) :
    (scope.write write).2 = scope := by
  cases write with
  | bind | register => cases h
  | bindRecord name record =>
    rw [Scope.write] at h ⊢
    cases hrecord : scope.bindRecord name record with
    | error => rfl
    | ok =>
      rw [hrecord] at h
      cases h

theorem write_bindRecord (name : String) (record : Record) :
    scope.write (.bindRecord name record) =
      match record.toHost with
      | .ok datum => (.ok (), scope.bind name datum)
      | .error e => (.error e, scope) := by
  rw [Scope.write, bindRecord]
  cases record.toHost <;> rfl

/-- What is bound to a name after a write is what the write bound, or else what was bound before. -/
theorem find?_data_write (name : String) :
    (scope.write write).2.data.find? name = (write.datum? name).or (scope.data.find? name) := by
  cases write with
  | register => rfl
  | bind other datum => exact scope.data.find?_insert_eq_or other datum name
  | bindRecord other record =>
    rw [write_bindRecord, Write.datum?]
    cases record.toHost with
    | error =>
      show scope.data.find? name = Option.or (if other = name then none else none) _
      rw [ite_self]
      rfl
    | ok datum => exact scope.data.find?_insert_eq_or other datum name

/-- The same holds of callbacks. -/
theorem find?_callbacks_write (name : String) :
    (scope.write write).2.callbacks.find? name =
      (write.callback? name).or (scope.callbacks.find? name) := by
  cases write with
  | bind => rfl
  | bindRecord other record =>
    rw [write_bindRecord]
    cases record.toHost <;> rfl
  | register other callback => exact scope.callbacks.find?_insert_eq_or other callback name

variable {write} in
/-- A write to one half of the scope leaves the other half alone. -/
theorem write_of_target :
    (write.target.1 = .datum → (scope.write write).2.callbacks = scope.callbacks) ∧
      (write.target.1 = .callback → (scope.write write).2.data = scope.data) := by
  cases write with
  | bind => exact ⟨fun _ ↦ rfl, nofun⟩
  | register => exact ⟨nofun, fun _ ↦ rfl⟩
  | bindRecord name record =>
    refine ⟨fun _ ↦ ?_, nofun⟩
    rw [write_bindRecord]
    cases record.toHost <;> rfl

/-! ### Many writes -/

/-- The datum that writes leave at a name: the last that one of them wrote to it. -/
def lastDatum? (writes : List Write) (name : String) : Option Host :=
  (writes.filterMap (Write.datum? name)).getLast?

/-- The callback that writes leave at a name. -/
def lastCallback? (writes : List Write) (name : String) : Option Callback :=
  (writes.filterMap (Write.callback? name)).getLast?

theorem find?_after (writes : List Write) (name : String) :
    (scope.after writes).data.find? name =
        (lastDatum? writes name).or (scope.data.find? name) ∧
      (scope.after writes).callbacks.find? name =
        (lastCallback? writes name).or (scope.callbacks.find? name) :=
  ⟨read_foldl (fun scope : Scope ↦ scope.data.find? name) _
      (fun scope write ↦ scope.find?_data_write write name) writes scope,
    read_foldl (fun scope : Scope ↦ scope.callbacks.find? name) _
      (fun scope write ↦ scope.find?_callbacks_write write name) writes scope⟩

/-- The last successful write to each name is the same. -/
structure SameLast (writes writes' : List Write) : Prop where
  /-- The same datum was bound last. -/
  datum : ∀ name, lastDatum? writes name = lastDatum? writes' name
  /-- The same callback was registered last. -/
  callback : ∀ name, lastCallback? writes name = lastCallback? writes' name

section

variable {writes writes' : List Write}

theorem SameLast.agreeOn (h : SameLast writes writes') (operands : List Operand) :
    AgreeOn operands (scope.after writes) (scope.after writes') where
  data {root _} _ := by
    rw [(scope.find?_after writes root).1, (scope.find?_after writes' root).1, h.datum]
  callbacks {name} _ := by
    rw [(scope.find?_after writes name).2, (scope.find?_after writes' name).2, h.callback]

theorem filterMap_swap {α β : Type} {view : α → Option β} {a b : α}
    (h : view a = none ∨ view b = none) (l l' : List α) :
    (l ++ a :: b :: l').filterMap view = (l ++ b :: a :: l').filterMap view := by
  simp only [List.filterMap_append, List.filterMap_cons]
  rcases h with h | h
  · rw [h]
  · rw [h]

/-- A write reaches no more than its target. -/
theorem Write.target_of_datum? {name : String} (h : write.datum? name ≠ none) :
    write.target = (.datum, name) := by
  cases write with
  | register => exact absurd rfl h
  | bind other | bindRecord other =>
    obtain rfl : other = name := Decidable.byContradiction fun hne ↦ h (if_neg hne)
    rfl

theorem Write.target_of_callback? {name : String} (h : write.callback? name ≠ none) :
    write.target = (.callback, name) := by
  cases write with
  | bind | bindRecord => exact absurd rfl h
  | register other =>
    obtain rfl : other = name := Decidable.byContradiction fun hne ↦ h (if_neg hne)
    rfl

/-- Writes to different targets can change places. -/
theorem sameLast_swap {first second : Write} (h : first.target ≠ second.target)
    (before later : List Write) :
    SameLast (before ++ first :: second :: later) (before ++ second :: first :: later) where
  datum name := by
    have hnone : first.datum? name = none ∨ second.datum? name = none :=
      Decidable.or_iff_not_not_and_not.2 fun ⟨hfirst, hsecond⟩ ↦
        h ((first.target_of_datum? hfirst).trans (second.target_of_datum? hsecond).symm)
    rw [lastDatum?, lastDatum?, filterMap_swap hnone]
  callback name := by
    have hnone : first.callback? name = none ∨ second.callback? name = none :=
      Decidable.or_iff_not_not_and_not.2 fun ⟨hfirst, hsecond⟩ ↦
        h ((first.target_of_callback? hfirst).trans (second.target_of_callback? hsecond).symm)
    rw [lastCallback?, lastCallback?, filterMap_swap hnone]

end

/-- A scope is a pair of maps in which the last write to a name wins. Whatever writes there are, it
holds at each name the datum and the callback written there last, and what it held before if there
is none. Writes to data leave callbacks alone and the reverse. A write that fails changes nothing,
and binding a record fails exactly if there is an unusable key in it, at any depth. Writes with the
same last successes have the same effect on every expression, so that writes to different targets
can change places. And of the pairs of a map whose keys are made the same text the last counts. -/
theorem last_write_wins (scope : Scope) :
    (∀ writes name,
      (scope.after writes).data.find? name =
          (lastDatum? writes name).or (scope.data.find? name) ∧
        (scope.after writes).callbacks.find? name =
          (lastCallback? writes name).or (scope.callbacks.find? name)) ∧
      (∀ write : Write,
        (write.target.1 = .datum → (scope.write write).2.callbacks = scope.callbacks) ∧
          (write.target.1 = .callback → (scope.write write).2.data = scope.data)) ∧
      (∀ write e, (scope.write write).1 = .error e → (scope.write write).2 = scope) ∧
      (∀ name record, (∃ e, (scope.write (.bindRecord name record)).1 = .error e) ↔
        Key.unusable ∈ record.keys) ∧
      (∀ writes writes', SameLast writes writes' → ∀ limit lexemes label,
        let report (scope : Scope) :=
          Expression.evaluate scope.environment limit lexemes label scope.callbacks
        (report (scope.after writes)).answer = (report (scope.after writes')).answer ∧
          (report (scope.after writes)).trail = (report (scope.after writes')).trail) ∧
      (∀ first second : Write, first.target ≠ second.target → ∀ before later,
        SameLast (before ++ first :: second :: later) (before ++ second :: first :: later)) ∧
      ∀ name pairs, (scope.write (.bindRecord name (.map pairs))).1 = .ok () →
        ∃ fields,
          (scope.write (.bindRecord name (.map pairs))).2.data.find? name =
              some (.object fields) ∧
            ∀ field, fields.find? field = (Record.writes field pairs).getLast? := by
  refine ⟨scope.find?_after, fun _ ↦ scope.write_of_target,
    fun write _ ↦ scope.write_of_error write, ?_, ?_, fun _ _ ↦ sameLast_swap, ?_⟩
  · intro name record
    rw [← record.exists_toHost_eq_error_iff, write_bindRecord]
    cases record.toHost <;> simp
  · intro writes writes' hlast limit lexemes label
    exact Expression.answer_eq_of_agreeOn (hlast.agreeOn scope _) limit label
  · intro name pairs hok
    rw [write_bindRecord] at hok ⊢
    cases hdatum : (Record.map pairs).toHost with
    | error =>
      rw [hdatum] at hok
      cases hok
    | ok datum =>
      obtain ⟨fields, rfl, hfields⟩ := Record.exists_object_of_map hdatum
      refine ⟨fields, ?_, hfields⟩
      show (scope.data.insert name (.object fields)).find? name = _
      rw [Dict.find?_insert, if_pos rfl]

/-- The integer `1` and the text `1` are one key of a map, and so are `true` and its word. The map
can be bound to a name before or after a callback is registered under it, and a record with an
unusable key in an inner map does not take its place. -/
theorem last_write_wins_of_equal_texts :
    let one : Key := .number (.integer 1 (by decide))
    let pairs : List (Key × Record) := [(one, .host (.string "a")),
      (.text "1", .host (.string "b")), (.truth true, .host (.string "c")),
      (.text "true", .host (.string "d"))]
    let inner : Record := .map [(.text "k", .map [(.unusable, .host .null)])]
    let map : Write := .bindRecord "m" (.map pairs)
    let refused : Write := .bindRecord "m" (.sequence [inner])
    let callback : Write := .register "m" (.fixed (.string "x"))
    let scope := empty.after [map, callback]
    let answer (scope : Scope) := (Expression.evaluate scope.environment 0
      [.operand "@m" ⟨0, 2⟩] "start" scope.callbacks).answer
    one.asText = .ok "1" ∧
      (∃ fields, scope.data.find? "m" = some (.object fields) ∧
        fields.find? "1" = some (.string "b") ∧ fields.find? "true" = some (.string "d")) ∧
      scope.callbacks.find? "m" = some (.fixed (.string "x")) ∧
      (scope.write callback).2.data = scope.data ∧
      (∃ e, (scope.write refused).1 = .error e) ∧ (scope.write refused).2 = scope ∧
      answer scope = answer (empty.after [callback, map]) := by
  intro one pairs inner map refused callback scope answer
  obtain ⟨hread, -, -, -, hsame, hswap, hmap⟩ := empty.last_write_wins
  obtain ⟨-, hhalf, hfailed, hrefused, -⟩ := scope.last_write_wins
  have hone : one.asText = .ok "1" := by decide +kernel
  have hfirst : (Record.writes "1" pairs).getLast? = some (.string "b") := by
    simp [Record.writes, pairs, Key.asText, Record.toHost, Except.toOption]
  have hsecond : (Record.writes "true" pairs).getLast? = some (.string "d") := by
    simp [Record.writes, pairs, Key.asText, Record.toHost, Except.toOption]
  obtain ⟨fields, hbound, hfields⟩ := hmap "m" pairs rfl
  have hkey : Key.unusable ∈ (Record.sequence [inner]).keys := by
    simp [inner, Record.keys, Record.itemKeys, Record.pairKeys]
  obtain ⟨e, he⟩ := (hrefused "m" _).2 hkey
  have hother : map.target ≠ callback.target := by
    intro htarget
    cases htarget
  have hlast : SameLast [map, callback] [callback, map] := hswap map callback hother [] []
  exact ⟨hone, ⟨fields, hbound, (hfields "1").trans hfirst, (hfields "true").trans hsecond⟩,
    (hread _ "m").2, (hhalf callback).2 rfl, ⟨e, he⟩, hfailed refused e he,
    (hsame _ _ hlast 0 _ "start").1⟩

end Scope

/-! ### Sessions -/

namespace Session

/-- The write that a step of a session is. -/
def Step.write? : Step → Option Scope.Write
  | .bind name datum => some (.bind name datum)
  | .bindRecord name pairs => some (.bindRecord name (.ofPairs pairs))
  | .register name callback => some (.register name callback)
  | _ => none

/-- The reply to a write. -/
def Reply.ofWrite : Except BindError Unit → Reply
  | .ok () => .done
  | .error e => .refused e

/-- A step that is a write does nothing else, and replies whether the write succeeded. -/
theorem step_of_write? (session : Session) {step : Step} {write : Scope.Write}
    (h : step.write? = some write) :
    session.step step = (Reply.ofWrite (session.scope.write write).1,
      { session with scope := (session.scope.write write).2 }) := by
  cases step with
  | bind | register =>
    cases h
    rfl
  | bindRecord name pairs =>
    cases h
    rw [Session.step, Scope.write]
    cases session.scope.bindRecord name (.ofPairs pairs) <;> rfl
  | look | call | inspect | create | limit | copy | query | evaluate => cases h

/-- So a script of writes leaves the scope after these writes, and the evaluators as they were. -/
theorem run_of_write? (session : Session) {script : List Step} {writes : List Scope.Write}
    (h : script.map Step.write? = writes.map some) :
    (session.run script).2 = { session with scope := session.scope.after writes } := by
  induction script generalizing session writes with
  | nil =>
    cases writes with
    | nil => rfl
    | cons => cases h
  | cons step rest ih =>
    cases writes with
    | nil => cases h
    | cons write writes =>
      obtain ⟨hstep, hrest⟩ := List.cons.inj h
      show (((session.step step).2).run rest).2 = _
      rw [step_of_write? session hstep, ih _ hrest]
      rfl

end Session

end Qualifier
