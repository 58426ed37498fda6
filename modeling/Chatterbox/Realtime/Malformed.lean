import Chatterbox.Json.Rewritten
import Chatterbox.Realtime.Envelope

/-!
# Records that are malformed

Two loops decode records that come from Redis, and both are written to go on where a record is not
what it should be: `_deliver_envelope`, called by the listener for every message of the channel, and
`_sweep_typing`, for the batch that `TYPING_SWEEP_SCRIPT` has returned and has taken out of Redis.
Their `except` clauses are the same, and leave out the same two exceptions; a third one comes from
behind the `try`.

| exception | raised by |
|---|---|
| `RecursionError` | `json.loads`, for what is nested too deeply |
| `AttributeError` | `UUID(value)`, for a number, a Boolean, a list or a `dict` |
| `UnicodeEncodeError` | `send_json`, for a surrogate that is not in a pair |

`Escapes` says for which texts one of the first two is raised, and `Unsendable` for which the third:
`send_json` leaves the characters of an event as they are, and `deliver_to_user_local` expects a
`RuntimeError` only.  `_deliver_envelope` does what it should for all others.  `_sweep_typing` sends
nothing to sockets, and writes all characters in ASCII; but it loses the rest of its batch where a
record escapes (`published_iff`).

The backend is available, and Redis takes what is published.
-/

namespace Chatterbox.Realtime.Malformed

open Envelope Json

variable {F : Type}

/-! ## Records -/

/-- The identifier that a string is the text of. -/
def uuidText : Value F → Option UUID
  | .str s => (chars s).bind uuidOf
  | _ => none

/-- What a record says that is well-formed: an object, of which the targets are texts of
identifiers, and an event. -/
def wellFormed (fl : Floats F) (lim : Limits) (rawData : Text) : Option (List UUID × Value F) :=
  match loads fl lim rawData with
  | .ok (.object members) => do
      let values ← (get (key "targets") members).bind iterate
      let targets ← values.mapM uuidText
      let event ← get (key "event") members
      return (targets, event)
  | _ => none

/-- It is no string, and not `null`: `UUID` looks for its `replace`, and in vain. -/
def LacksReplace : Value F → Prop
  | .str _ | .null => False
  | _ => True

/-- The record is nested too deeply, or it is an object of which the first target that is not the
text of an identifier is no string, and not `null`. -/
inductive Escapes (fl : Floats F) (lim : Limits) (rawData : Text) : Prop
  | deep (h : loads fl lim rawData = .error .recursionError)
  | target {members : List (Str × Value F)} {before after : List (Value F)} {v : Value F}
      (h : loads fl lim rawData = .ok (.object members))
      (targets : (get (key "targets") members).bind iterate = some (before ++ v :: after))
      (texts : ∀ w ∈ before, ∃ u, uuidText w = some u) (lacks : LacksReplace v)

/-! ## The sockets -/

mutual

/-- All strings in the value can be encoded: their surrogates are in pairs. -/
def encodable : Value F → Bool
  | .str s => (chars s).isSome
  | .array elements => elementsEncodable elements
  | .object members => membersEncodable members
  | _ => true

def elementsEncodable : List (Value F) → Bool
  | [] => true
  | v :: vs => encodable v && elementsEncodable vs

def membersEncodable : List (Str × Value F) → Bool
  | [] => true
  | (name, v) :: ms => (chars name).isSome && encodable v && membersEncodable ms

end

/-- `deliver_to_users_local`, where the users for whom `isOpen` is true have open sockets. -/
def deliverToUsersLocal (isOpen : UUID → Bool) (targets : List UUID)
    (event : List (Str × Value F)) : Delivery F :=
  if targets.any isOpen ∧ ¬ membersEncodable event then .raised else .deliver targets event

/-- The whole of `_deliver_envelope`. -/
def deliver (fl : Floats F) (lim : Limits) (isOpen : UUID → Bool) (rawData : Text) : Delivery F :=
  match deliverEnvelope fl lim rawData with
  | .deliver targets event => deliverToUsersLocal isOpen targets event
  | delivery => delivery

/-- The record is well-formed, but its event cannot be sent to a socket that is there. -/
def Unsendable (fl : Floats F) (lim : Limits) (isOpen : UUID → Bool) (rawData : Text) : Prop :=
  ∃ targets event, wellFormed fl lim rawData = some (targets, .object event) ∧
    (∃ u ∈ targets, isOpen u) ∧ membersEncodable event = false

/-! ## The sweep -/

/-- The two first statements of the `try`: the object, and the targets in it; or whether the
exception is one of those that are expected. -/
def decodeTargets (fl : Floats F) (lim : Limits) (rawData : Text) :
    Except Bool (List (Str × Value F) × List UUID) :=
  match loads fl lim rawData with
  | .error .recursionError => .error false
  | .error _ => .error true
  | .ok (.object members) =>
      match (get (key "targets") members).bind iterate with
      | none => .error true
      | some values => (values.mapM uuidOfValue).map (members, ·)
  | .ok _ => .error true

/-- The `try` of `_sweep_typing`. -/
def sweepRecord (fl : Floats F) (lim : Limits) (rawData : Text) :
    Except Bool (List UUID × Value F) :=
  match decodeTargets fl lim rawData with
  | .error expected => .error expected
  | .ok (members, targets) =>
      match get (key "event") members with
      | some event => .ok (targets, event)
      | none => .error true

/-- The envelope of an event that may be any value. -/
def envelopeOf (instanceId : Str) (record : List UUID × Value F) : List (Str × Value F) :=
  [(key "source", .str instanceId),
    (key "targets", .array (record.1.map fun u ↦ .str (Json.str (Conversations.str u)))),
    (key "event", record.2)]

/-- What `publish_users` publishes. -/
def publication (fl : Floats F) (lim : Limits) (instanceId : Str)
    (record : List UUID × Value F) : Except Error Text :=
  dumps fl lim (.object (envelopeOf instanceId record))

/-- What a sweep has published, and whether an exception has ended it. -/
structure Swept where
  published : List Text
  raised : Bool
deriving DecidableEq, Repr

/-- The loop of `_sweep_typing`. -/
def sweepTyping (fl : Floats F) (lim : Limits) (instanceId : Str) : List Text → Swept
  | [] => ⟨[], false⟩
  | rawData :: expired =>
      match sweepRecord fl lim rawData with
      | .error true => sweepTyping fl lim instanceId expired
      | .error false => ⟨[], true⟩
      | .ok record =>
          match publication fl lim instanceId record with
          | .error _ => ⟨[], true⟩
          | .ok message =>
              let rest := sweepTyping fl lim instanceId expired
              ⟨message :: rest.published, rest.raised⟩

variable {fl : Floats F} {lim : Limits} {rawData : Text} {v : Value F} {u : UUID}

/-! ## The first value that is not as it should be -/

section Traversal

variable {ε α β : Type} {f : α → Except ε β}

/-- A traversal raises what the first value raises for which there is something to raise. -/
theorem mapM_eq_error {xs : List α} {e : ε} : xs.mapM f = .error e ↔
    ∃ before x after, xs = before ++ x :: after ∧ (∀ w ∈ before, ∃ y, f w = .ok y) ∧
      f x = .error e := by
  induction xs with
  | nil =>
      refine iff_of_false nofun ?_
      rintro ⟨before, x, after, h, -⟩
      cases before <;> cases h
  | cons x xs ih =>
      rw [List.mapM_cons]
      cases hx : f x with
      | error e' =>
          constructor
          · intro h
            cases h
            exact ⟨[], x, xs, rfl, fun _ h ↦ absurd h List.not_mem_nil, hx⟩
          · rintro ⟨_ | ⟨b, before⟩, y, after, h, hbefore, hy⟩
            · cases h
              rw [hx] at hy
              cases hy
              rfl
            · cases h
              obtain ⟨z, hz⟩ := hbefore x (.head _)
              rw [hx] at hz
              cases hz
      | ok y =>
          have hrest : (do let y ← Except.ok y; let ys ← xs.mapM f; pure (y :: ys)) =
              Except.error e ↔ xs.mapM f = .error e := by
            cases xs.mapM f <;> simp [bind, Except.bind, pure, Except.pure]
          rw [hrest, ih]
          constructor
          · rintro ⟨before, z, after, rfl, hbefore, hz⟩
            exact ⟨x :: before, z, after, rfl, List.forall_mem_cons.mpr ⟨⟨y, hx⟩, hbefore⟩, hz⟩
          · rintro ⟨_ | ⟨b, before⟩, z, after, h, hbefore, hz⟩
            · cases h
              rw [hx] at hz
              cases hz
            · cases h
              exact ⟨before, z, after, rfl, fun w hw ↦ hbefore w (.tail _ hw), hz⟩

/-- Traversals that accept the same values accept the same lists. -/
theorem mapM_eq_ok_iff {g : α → Option β} (h : ∀ x y, f x = .ok y ↔ g x = some y) {xs : List α}
    {ys : List β} : xs.mapM f = .ok ys ↔ xs.mapM g = some ys := by
  induction xs generalizing ys with
  | nil => simp [pure, Except.pure]
  | cons x xs ih =>
      rw [List.mapM_cons, List.mapM_cons]
      cases hx : f x with
      | error e =>
          have hnone : g x = none := by
            rw [Option.eq_none_iff_forall_ne_some]
            intro y hy
            rw [(h x y).mpr hy] at hx
            cases hx
          rw [hnone]
          exact iff_of_false nofun nofun
      | ok y =>
          rw [(h x y).mp hx]
          cases hxs : xs.mapM f with
          | error e =>
              have hnone : xs.mapM g = none := by
                rw [Option.eq_none_iff_forall_ne_some]
                intro zs hzs
                rw [ih.mpr hzs] at hxs
                cases hxs
              rw [hnone]
              exact iff_of_false nofun nofun
          | ok zs =>
              rw [ih.mp hxs]
              simp [bind, Except.bind, pure, Except.pure]

end Traversal

/-! ## What the decoders raise -/

theorem uuidOfValue_eq_ok (v : Value F) (u : UUID) :
    uuidOfValue v = .ok u ↔ uuidText v = some u := by
  cases v with
  | str s =>
      rw [uuidOfValue, uuidText]
      cases (chars s).bind uuidOf <;> simp
  | null | bool | int | float | array | object =>
      refine iff_of_false ?_ ?_
      · rintro ⟨⟩
      · rintro ⟨⟩

theorem uuidOfValue_eq_false : uuidOfValue v = .error false ↔ LacksReplace v := by
  cases v with
  | str s =>
      refine iff_of_false ?_ not_false
      rw [uuidOfValue]
      split <;> rintro ⟨⟩
  | null =>
      refine iff_of_false ?_ not_false
      rintro ⟨⟩
  | bool | int | float | array | object => exact iff_of_true rfl trivial

/-- What `decodeTargets` has to go on with: an object, and what a loop over its targets goes
through. -/
def HasTargets (fl : Floats F) (lim : Limits) (rawData : Text) (members : List (Str × Value F))
    (values : List (Value F)) : Prop :=
  loads fl lim rawData = .ok (.object members) ∧
    (get (key "targets") members).bind iterate = some values

variable {members members' : List (Str × Value F)} {values values' : List (Value F)}
  {targets : List UUID} {record : List UUID × Value F}

theorem HasTargets.unique (h : HasTargets fl lim rawData members values)
    (h' : HasTargets fl lim rawData members' values') : members' = members ∧ values' = values := by
  obtain rfl : members = members' := by simpa using h.1.symm.trans h'.1
  exact ⟨rfl, Option.some.inj (h'.2.symm.trans h.2)⟩

/-- The text is nested too deeply, or there are targets, or the exception is expected. -/
theorem decodeTargets_cases (fl : Floats F) (lim : Limits) (rawData : Text) :
    (loads fl lim rawData = .error .recursionError ∧
        decodeTargets fl lim rawData = .error false) ∨
      (∃ members values, HasTargets fl lim rawData members values ∧
        decodeTargets fl lim rawData = (values.mapM uuidOfValue).map (members, ·)) ∨
      loads fl lim rawData ≠ .error .recursionError ∧
        (∀ members values, ¬ HasTargets fl lim rawData members values) ∧
          decodeTargets fl lim rawData = .error true := by
  simp only [decodeTargets, HasTargets]
  cases loads fl lim rawData with
  | error e =>
      cases e with
      | recursionError => exact .inl ⟨rfl, rfl⟩
      | jsonDecodeError | valueError =>
          exact .inr (.inr ⟨by rintro ⟨⟩, by rintro _ _ ⟨⟨⟩, -⟩, rfl⟩)
  | ok v =>
      cases v with
      | object members =>
          cases hvalues : (get (key "targets") members).bind iterate with
          | none =>
              refine .inr (.inr ⟨by rintro ⟨⟩, ?_, by simp only [hvalues]⟩)
              rintro _ values ⟨⟨⟩, h⟩
              rw [hvalues] at h
              cases h
          | some values =>
              exact .inr (.inl ⟨members, values, ⟨rfl, hvalues⟩, by simp only [hvalues]⟩)
      | null | bool | int | float | str | array =>
          exact .inr (.inr ⟨by rintro ⟨⟩, by rintro _ _ ⟨⟨⟩, -⟩, rfl⟩)

theorem decodeTargets_eq_false : decodeTargets fl lim rawData = .error false ↔
    Escapes fl lim rawData := by
  rcases decodeTargets_cases fl lim rawData with ⟨hdeep, h⟩ | ⟨members, values, htargets, h⟩ |
    ⟨hshallow, hnone, h⟩
  · exact iff_of_true h (.deep hdeep)
  · have hmap : (values.mapM uuidOfValue).map (members, ·) = .error false ↔
        values.mapM uuidOfValue = .error false := by
      cases values.mapM uuidOfValue <;> simp [Except.map]
    rw [h, hmap, mapM_eq_error]
    constructor
    · rintro ⟨before, v, after, rfl, hbefore, hv⟩
      refine .target htargets.1 htargets.2 (fun w hw ↦ ?_) (uuidOfValue_eq_false.mp hv)
      obtain ⟨u, hu⟩ := hbefore w hw
      exact ⟨u, (uuidOfValue_eq_ok w u).mp hu⟩
    · rintro (hdeep | @⟨_, before, after, v, hobject, hvalues, htexts, hlacks⟩)
      · rw [htargets.1] at hdeep
        cases hdeep
      · obtain ⟨-, hsplit⟩ := htargets.unique ⟨hobject, hvalues⟩
        refine ⟨before, v, after, hsplit.symm, fun w hw ↦ ?_, uuidOfValue_eq_false.mpr hlacks⟩
        obtain ⟨u, hu⟩ := htexts w hw
        exact ⟨u, (uuidOfValue_eq_ok w u).mpr hu⟩
  · refine iff_of_false (by rw [h]; rintro ⟨⟩) ?_
    rintro (hdeep | ⟨hobject, hvalues, -⟩)
    · exact hshallow hdeep
    · exact hnone _ _ ⟨hobject, hvalues⟩

theorem decodeTargets_eq_ok : decodeTargets fl lim rawData = .ok (members, targets) ↔
    ∃ values, HasTargets fl lim rawData members values ∧ values.mapM uuidText = some targets := by
  rcases decodeTargets_cases fl lim rawData with ⟨hdeep, h⟩ | ⟨members', values, htargets, h⟩ |
    ⟨-, hnone, h⟩
  · refine iff_of_false (by rw [h]; rintro ⟨⟩) ?_
    rintro ⟨values, htargets, -⟩
    have hok := htargets.1
    rw [hdeep] at hok
    cases hok
  · have hmap : (values.mapM uuidOfValue).map (members', ·) = .ok (members, targets) ↔
        members' = members ∧ values.mapM uuidOfValue = .ok targets := by
      cases values.mapM uuidOfValue <;> simp [Except.map]
    rw [h, hmap, mapM_eq_ok_iff uuidOfValue_eq_ok]
    constructor
    · rintro ⟨rfl, hread⟩
      exact ⟨values, htargets, hread⟩
    · rintro ⟨values', htargets', hread⟩
      obtain ⟨rfl, rfl⟩ := htargets.unique htargets'
      exact ⟨rfl, hread⟩
  · refine iff_of_false (by rw [h]; rintro ⟨⟩) ?_
    rintro ⟨values, htargets, -⟩
    exact hnone _ _ htargets

theorem wellFormed_eq_some : wellFormed fl lim rawData = some record ↔
    ∃ members, decodeTargets fl lim rawData = .ok (members, record.1) ∧
      get (key "event") members = some record.2 := by
  simp only [decodeTargets_eq_ok]
  rw [wellFormed]
  split
  · next members h =>
      constructor
      · intro hrecord
        obtain ⟨values, hvalues, hrecord⟩ := Option.bind_eq_some_iff.mp hrecord
        obtain ⟨targets, htargets, hrecord⟩ := Option.bind_eq_some_iff.mp hrecord
        obtain ⟨event, hevent, hrecord⟩ := Option.bind_eq_some_iff.mp hrecord
        cases hrecord
        exact ⟨members, ⟨values, ⟨h, hvalues⟩, htargets⟩, hevent⟩
      · rintro ⟨members', ⟨values, ⟨hobject, hvalues⟩, htargets⟩, hevent⟩
        rw [h] at hobject
        cases hobject
        simp [hvalues, htargets, hevent]
  · next hne =>
      refine iff_of_false nofun ?_
      rintro ⟨members, ⟨values, ⟨hobject, -⟩, -⟩, -⟩
      exact hne members hobject

/-- What the sweep makes of a record that is well-formed. -/
theorem sweepRecord_eq_ok : sweepRecord fl lim rawData = .ok record ↔
    wellFormed fl lim rawData = some record := by
  rw [wellFormed_eq_some, sweepRecord]
  cases decodeTargets fl lim rawData with
  | error e => exact iff_of_false nofun (by rintro ⟨_, ⟨⟩, -⟩)
  | ok decoded =>
      obtain ⟨members, targets⟩ := decoded
      constructor
      · intro h
        dsimp only at h
        split at h
        · next event hget =>
            cases h
            exact ⟨members, rfl, hget⟩
        · cases h
      · rintro ⟨members', hdecode, hevent⟩
        obtain ⟨rfl, rfl⟩ := Prod.mk.inj (Except.ok.inj hdecode)
        simp only [hevent]

/-- Where it does not go on with the next one. -/
theorem sweepRecord_eq_false : sweepRecord fl lim rawData = .error false ↔
    Escapes fl lim rawData := by
  rw [← decodeTargets_eq_false, sweepRecord]
  cases decodeTargets fl lim rawData with
  | error e => simp
  | ok decoded =>
      refine iff_of_false ?_ nofun
      intro h
      dsimp only at h
      split at h <;> cases h

theorem deliverEnvelope_eq : deliverEnvelope fl lim rawData =
    match decodeTargets fl lim rawData with
    | .error true => .ignored
    | .error false => .raised
    | .ok (members, targets) =>
        match get (key "event") members with
        | some (.object event) => .deliver targets event
        | _ => .ignored := by
  rw [deliverEnvelope, decodeTargets]
  cases loads fl lim rawData with
  | error e => cases e <;> rfl
  | ok v =>
      cases v with
      | object members =>
          dsimp only
          cases (get (key "targets") members).bind iterate with
          | none => rfl
          | some values =>
              dsimp only
              cases values.mapM uuidOfValue with
              | error e => cases e <;> rfl
              | ok targets => rfl
      | null | bool | int | float | str | array => rfl

/-! ## What is published -/

/-- For an event that is a `dict`, it is what `publish_users` publishes. -/
theorem publication_object (instanceId : Str) (userIds : List UUID) (event : Event F) :
    publication fl lim instanceId (userIds, .object event.members) =
      publishUsers fl lim instanceId userIds event := rfl

/-- What a record says can be written: it is not deeper in what is published. -/
theorem exists_publication (hdepth : 2 ≤ lim.depth) (instanceId : Str)
    (h : wellFormed fl lim rawData = some record) :
    ∃ message, publication fl lim instanceId record = .ok message := by
  obtain ⟨members, hdecode, hevent⟩ := wellFormed_eq_some.mp h
  obtain ⟨inner, hinner⟩ : ∃ inner, lim.depth = inner + 1 + 1 := ⟨lim.depth - 2, by omega⟩
  obtain ⟨m, hm, hvalue⟩ := Option.map_eq_some_iff.mp hevent
  obtain ⟨values, htargets, -⟩ := decodeTargets_eq_ok.mp hdecode
  have hobject := fault_of_loads htargets.1
  rw [hinner] at hobject
  obtain ⟨_, ⟨⟩, hmembers⟩ := fault_object hobject
  have hfault : record.2.fault lim.digits (inner + 1) = none :=
    hvalue ▸ hmembers m (List.mem_of_find?_eq_some hm)
  have hwhole : (Value.object (envelopeOf instanceId record)).fault lim.digits lim.depth =
      none := by
    rw [hinner]
    refine membersFault_eq_none.mpr fun m hm ↦ ?_
    simp only [envelopeOf, List.mem_cons, List.not_mem_nil, or_false] at hm
    rcases hm with rfl | rfl | rfl
    · exact fault_str instanceId
    · refine elementsFault_eq_none.mpr fun w hw ↦ ?_
      obtain ⟨u, -, rfl⟩ := List.mem_map.mp hw
      exact fault_str _
    · exact hfault
  exact ⟨_, by rw [publication, dumps, hwhole]⟩

/-- The text raises nothing, and is delivered only as what it says. -/
def Skipped (fl : Floats F) (lim : Limits) (isOpen : UUID → Bool) (rawData : Text) : Prop :=
  deliver fl lim isOpen rawData ≠ .raised ∧
    ∀ targets event, deliver fl lim isOpen rawData = .deliver targets event →
      wellFormed fl lim rawData = some (targets, .object event)

/-- The records of a batch that are well-formed are published, each once and in their order, and
nothing else is. -/
def Published (fl : Floats F) (lim : Limits) (instanceId : Str) (batch : List Text) : Prop :=
  (sweepTyping fl lim instanceId batch).published.map .ok =
    (batch.filterMap (wellFormed fl lim)).map (publication fl lim instanceId)

/-- What is handed on to the sockets is what a well-formed record says. -/
theorem deliverEnvelope_eq_deliver {event : List (Str × Value F)} :
    deliverEnvelope fl lim rawData = .deliver targets event ↔
      wellFormed fl lim rawData = some (targets, .object event) := by
  rw [wellFormed_eq_some, deliverEnvelope_eq]
  cases decodeTargets fl lim rawData with
  | error e => cases e <;> simp
  | ok decoded =>
      obtain ⟨members, targets'⟩ := decoded
      dsimp only
      split
      · next event' hevent =>
          constructor
          · rintro ⟨⟩
            exact ⟨members, rfl, hevent⟩
          · rintro ⟨_, ⟨⟩, hevent'⟩
            cases hevent.symm.trans hevent'
            rfl
      · next hne =>
          refine iff_of_false nofun ?_
          rintro ⟨_, ⟨⟩, hevent⟩
          exact hne event hevent

theorem deliverEnvelope_eq_raised :
    deliverEnvelope fl lim rawData = .raised ↔ Escapes fl lim rawData := by
  rw [← decodeTargets_eq_false, deliverEnvelope_eq]
  cases decodeTargets fl lim rawData with
  | error e => cases e <;> simp
  | ok decoded =>
      refine iff_of_false ?_ nofun
      dsimp only
      split <;> nofun

theorem skipped_iff {isOpen : UUID → Bool} : Skipped fl lim isOpen rawData ↔
    ¬ Escapes fl lim rawData ∧ ¬ Unsendable fl lim isOpen rawData := by
  rw [← deliverEnvelope_eq_raised, Skipped, deliver]
  simp only [Unsendable, ← deliverEnvelope_eq_deliver]
  cases deliverEnvelope fl lim rawData with
  | deliver targets event =>
      simp only [deliverToUsersLocal]
      split
      · next hfails =>
          refine iff_of_false (fun h ↦ h.1 rfl) fun h ↦ h.2 ⟨targets, event, rfl, ?_, ?_⟩
          · exact List.any_eq_true.mp hfails.1
          · exact Bool.eq_false_iff.mpr hfails.2
      · next hsends =>
          refine iff_of_true ⟨nofun, fun _ _ ↦ id⟩ ⟨nofun, ?_⟩
          rintro ⟨_, _, ⟨⟩, hopen, hevent⟩
          exact hsends ⟨List.any_eq_true.mpr hopen, Bool.eq_false_iff.mp hevent⟩
  | ignored =>
      refine iff_of_true ⟨nofun, fun _ _ ↦ nofun⟩ ⟨nofun, ?_⟩
      rintro ⟨_, _, ⟨⟩, -⟩
  | raised => exact iff_of_false (fun h ↦ h.1 rfl) fun h ↦ h.1 rfl

/-- Behind a record that ends the sweep there is to be none that is well-formed. -/
theorem published_iff (hdepth : 2 ≤ lim.depth) (instanceId : Str) (batch : List Text) :
    Published fl lim instanceId batch ↔
      batch.Pairwise fun r x ↦ Escapes fl lim r → wellFormed fl lim x = none := by
  induction batch with
  | nil => exact iff_of_true rfl .nil
  | cons r batch ih =>
      rw [List.pairwise_cons, ← ih, Published, Published, sweepTyping]
      cases hrecord : sweepRecord fl lim r with
      | error expected =>
          have hnone : wellFormed fl lim r = none := by
            rw [Option.eq_none_iff_forall_ne_some]
            intro record h
            rw [sweepRecord_eq_ok.mpr h] at hrecord
            cases hrecord
          rw [List.filterMap_cons_none hnone]
          cases expected with
          | true =>
              have hgoes : ¬ Escapes fl lim r := by
                rw [← sweepRecord_eq_false, hrecord]
                nofun
              exact (and_iff_right fun x _ h ↦ absurd h hgoes).symm
          | false =>
              have hends : Escapes fl lim r := sweepRecord_eq_false.mp hrecord
              have hnil : [] = (batch.filterMap (wellFormed fl lim)).map
                  (publication fl lim instanceId) ↔
                    ∀ x ∈ batch, wellFormed fl lim x = none := by
                rw [eq_comm, List.map_eq_nil_iff, List.filterMap_eq_nil_iff]
              refine hnil.trans ⟨fun h ↦ ⟨fun x hx _ ↦ h x hx, ih.mpr ?_⟩, fun h x hx ↦
                h.1 x hx hends⟩
              exact List.pairwise_of_forall_mem_list fun x hx y hy _ ↦ h y hy
      | ok record =>
          have hgoes : ¬ Escapes fl lim r := by
            rw [← sweepRecord_eq_false, hrecord]
            nofun
          have hwell := sweepRecord_eq_ok.mp hrecord
          obtain ⟨message, hmessage⟩ := exists_publication hdepth instanceId hwell
          rw [List.filterMap_cons_some hwell, List.map_cons]
          simp only [hmessage, List.map_cons, List.cons.injEq, true_and]
          exact (and_iff_right fun x _ h ↦ absurd h hgoes).symm

/-- **Malformed records are skipped, but for those that escape.**  The listener raises nothing
exactly for the texts that do not and whose event can be sent, and a sweep publishes what is
well-formed exactly if none of that is behind one that escapes. -/
theorem malformed_iff (fl : Floats F) (lim : Limits) (hdepth : 2 ≤ lim.depth) (instanceId : Str) :
    (∀ isOpen rawData, Skipped fl lim isOpen rawData ↔
        ¬ Escapes fl lim rawData ∧ ¬ Unsendable fl lim isOpen rawData) ∧
      ∀ batch, Published fl lim instanceId batch ↔
        batch.Pairwise fun r x ↦ Escapes fl lim r → wellFormed fl lim x = none :=
  ⟨fun _ _ ↦ skipped_iff, published_iff hdepth instanceId⟩

/-! ## A target that is a number -/

/-- A record with one target and an empty event. -/
def recordOf (target : Value { n : Number // n.Valid ∧ n.IsFloat }) :
    List (Str × Value { n : Number // n.Valid ∧ n.IsFloat }) :=
  [(key "targets", .array [target]), (key "event", .object [])]

def textOf (target : Value { n : Number // n.Valid ∧ n.IsFloat }) : Text :=
  (Value.object (recordOf target)).text Floats.written

theorem loads_textOf {target : Value { n : Number // n.Valid ∧ n.IsFloat }}
    (hdistinct : target.Distinct) (hfault : target.fault 4300 998 = none) :
    loads Floats.written ⟨4300, 1000⟩ (textOf target) = .ok (.object (recordOf target)) := by
  have hkeys : [key "targets", key "event"].Nodup := by decide
  have hobject : (Value.object (recordOf target)).Distinct := by
    refine .object hkeys fun m hm ↦ ?_
    rcases List.mem_pair.mp hm with rfl | rfl
    · exact .array fun v hv ↦ List.mem_singleton.mp hv ▸ hdistinct
    · exact .object List.nodup_nil fun _ h ↦ absurd h List.not_mem_nil
  have hwhole : (Value.object (recordOf target)).fault 4300 1000 = none := by
    simp only [recordOf, Value.fault, membersFault, elementsFault, hfault, Option.or_none]
  refine loads_dumps hobject ?_
  rw [dumps, hwhole]
  rfl

/-- A record for user 7. -/
def forUser : Text := textOf (.str (Json.str (Conversations.str 7)))

theorem wellFormed_forUser :
    wellFormed Floats.written ⟨4300, 1000⟩ forUser = some ([7], .object []) := by
  refine wellFormed_eq_some.mpr ⟨_, decodeTargets_eq_ok.mpr
    ⟨_, ⟨loads_textOf (.str _) (fault_str _), rfl⟩, ?_⟩, rfl⟩
  simp [uuidText, chars_str, uuidOf_str]

/-- `{"targets":[5],"event":{}}`. -/
def numberedTarget : Text := textOf (.int 5)

theorem escapes_numberedTarget : Escapes Floats.written ⟨4300, 1000⟩ numberedTarget :=
  @Escapes.target _ _ _ _ _ [] [] (.int 5) (loads_textOf (.int 5) rfl) rfl
    (fun _ h ↦ absurd h List.not_mem_nil) trivial

/-- It is not skipped by the listener, and nothing that is behind it in a batch is published. -/
theorem numbered_not_skipped :
    (∀ isOpen, ¬ Skipped Floats.written ⟨4300, 1000⟩ isOpen numberedTarget) ∧
      ¬ Published Floats.written ⟨4300, 1000⟩ (key "a") [numberedTarget, forUser] := by
  refine ⟨fun isOpen h ↦ (skipped_iff.mp h).1 escapes_numberedTarget, fun h ↦ ?_⟩
  have hpair := List.pairwise_pair.mp ((published_iff (by decide) (key "a") _).mp h)
  have hnone := hpair escapes_numberedTarget
  rw [wellFormed_forUser] at hnone
  cases hnone

theorem not_escapes_of_wellFormed (h : wellFormed fl lim rawData = some record) :
    ¬ Escapes fl lim rawData := by
  rw [← sweepRecord_eq_false, sweepRecord_eq_ok.mpr h]
  nofun

theorem not_unsendable_forUser (isOpen : UUID → Bool) :
    ¬ Unsendable Floats.written ⟨4300, 1000⟩ isOpen forUser := by
  rintro ⟨targets, event, hrecord, -, hevent⟩
  rw [wellFormed_forUser] at hrecord
  cases hrecord
  cases hevent

theorem forUser_published :
    Skipped Floats.written ⟨4300, 1000⟩ (fun _ ↦ true) forUser ∧
      Published Floats.written ⟨4300, 1000⟩ (key "a") [forUser] := by
  have h := malformed_iff Floats.written ⟨4300, 1000⟩ (by decide) (key "a")
  exact ⟨(h.1 _ forUser).mpr
      ⟨not_escapes_of_wellFormed wellFormed_forUser, not_unsendable_forUser _⟩,
    (h.2 [forUser]).mpr (List.pairwise_singleton _ _)⟩

end Chatterbox.Realtime.Malformed
