import Persistence.Proofs.Anchoring

/-!
Stability of identities. Whatever is asked of a manager, every look-up of a key that an instance
owns finds this instance, and the connection is not asked.
-/

namespace Persistence.Manager

open Schema (Metadata)

variable {σ : Type} {start m m' : Manager (Recorded σ)} {oid : Oid} {key : IdentityKey}

/-- What can be asked of a manager, and what callers do to instances in between. -/
inductive Request
  | edit (heap : Heap)
  | create (type : EntityType)
  | find (type : EntityType) (id : Identifier)
  | resolve (r : Reference)
  | findByIds (type : EntityType) (ids : List Identifier)
  | inquire (i : Inquiry)
  | persist (oid : Oid)
  | remove (oid : Oid)
  | detach (oid : Oid)
  | flush

variable [Connection σ]

def Request.run : Request → ManagerM σ Unit
  | edit heap => changeHeap fun _ => heap
  | create type => discard (Manager.create type)
  | find type id => discard (Manager.find type id)
  | resolve r => discard r.resolve
  | findByIds type ids => discard (Repository.findByIds type ids)
  | inquire i => i.run
  | persist oid => Manager.persist oid
  | remove oid => Manager.remove oid
  | detach oid => Manager.detach oid
  | flush => Manager.flush

/-- A request does not edit identifiers, and neither detaches nor deletes the instance. -/
def Request.Spares (oid : Oid) : Request → Manager σ → Prop
  | edit heap, m => m.LeavesIdentifiers heap
  | detach j, _ => j ≠ oid
  | flush, m => (∃ t, Manager.flush.run m = (.ok ⟨⟩, t)) → oid ∉ m.work.deletions
  | _, _ => True

/-- Any requests that spare an instance, each of which may succeed or fail. -/
inductive Serves (oid : Oid) : Manager σ → Manager σ → Prop
  | done (m : Manager σ) : Serves oid m m
  | request {m m' : Manager σ} (r : Request) : Serves oid m m' → r.Spares oid m' →
      Serves oid m (r.run.run m').2

section Kept

variable (hstart : start.registry.Sound) (hf : start.Faithful) (happart : start.IdentifiersApart)

include hstart hf happart

theorem Anchored.request (h : Anchored start oid key m) (r : Request) (hspares : r.Spares oid m) :
    Anchored start oid key (r.run.run m).2 := by
  cases r with
  | edit heap => exact h.edit hspares
  | create type => exact h.allocate _
  | find type id =>
    rw [Request.run, Action.state_discard]
    exact h.find hstart hf happart type id
  | resolve r =>
    rw [Request.run, Action.state_discard]
    exact h.resolve hstart hf happart r
  | findByIds type ids =>
    rw [Request.run, Action.state_discard]
    exact h.findByIds hstart hf happart type ids
  | inquire i => exact h.undisturbed (i.within_run m)
  | persist j => exact h.persist j
  | remove j => exact h.remove j
  | detach j => exact h.detach hspares
  | flush => exact h.flush hspares

theorem Serves.anchored (h : Serves oid m m') (hm : Anchored start oid key m) :
    Anchored start oid key m' := by
  induction h with
  | done => exact hm
  | request r _ hspares ih => exact ih.request hstart hf happart r hspares

end Kept

/-- The values in the identifier fields of an instance are coerced to those of the key. -/
def HasKey (m : Manager σ) (oid : Oid) (key : IdentityKey) : Prop :=
  ∃ md ids, m.registry.view (m.heap.typeOf oid).className = .ok md ∧
    md.identifierValues (m.heap.content oid) = .ok ids ∧ IdentityKey.ofSnapshot md ids = .ok key

theorem Reachable.anchored (h : Reachable anyOperation m) (hslot : m.work.slots.get? key = some oid)
    (hsole : ∀ j, j ≠ oid → m.work.keyOf j ≠ some key)
    (hkeys : ∀ j k, m.work.keyOf j = some k → m.HasKey j k) : Anchored m oid key m where
  consistent := h.consistent
  owns := ⟨h.consistent.keyOf_slot key oid hslot, hslot⟩
  sole := hsole
  identifiable := by
    intro j t k ht hk
    obtain ⟨hsound, heach⟩ := h.described
    obtain ⟨md, ids, hview, hids, hkey⟩ := hkeys j k (by rw [UnitOfWork.keyOf_of_get? ht, hk])
    have hclass : md.className = t.metadata.className := by
      rw [← (IdentityKey.belongs_of_ofSnapshot hkey).className_eq,
        (h.keyed j t k ht hk).className_eq]
    obtain rfl : md = t.metadata := by
      rw [← Schema.Registry.className_of_view hsound hview, hclass] at hview
      exact Except.ok.inj (hview.symm.trans (heach j t ht))
    have hsame : IdentityKey.ofSnapshot t.metadata (t.metadata.snapshotOf (m.heap.content j)) =
        .ok k := (IdentityKey.ofSnapshot_identifierValues hids).trans hkey
    exact ⟨Heap.index_lt_of_ofSnapshot hsame, fun k' hk' => Except.ok.inj (hk'.symm.trans hsame)⟩
  registry := Std.Refl.refl m.registry
  type := rfl
  storages _ := rfl

theorem Anchored.look_up {md : Metadata} {id : Identifier} (h : Anchored start oid key m)
    (hstart : start.registry.Sound) (hview : start.registry.view key.className = .ok md)
    (hid : IdentityKey.ofIdentifier md id = .ok key)
    (htype : (start.heap.typeOf oid).className = key.className) :
    ∃ t, t.session = m.session ∧
      (Manager.find (start.heap.typeOf oid) id).run m = (.ok (some oid), t) ∧
      (reference (start.heap.typeOf oid) id).run m = (.ok (.loaded oid), t) ∧
      (Reference.resolve (.unloaded (start.heap.typeOf oid) id)).run m = (.ok oid, t) := by
  rw [← htype, ← h.registry.view_eq hstart] at hview
  let type := start.heap.typeOf oid
  let t : Manager (Recorded σ) := { m with registry := m.registry.remember type.className md }
  have hmd : (metadata type).run m = (.ok md, t) := run_metadata (h.registry.sound hstart) hview
  have hslot : t.work.find? key = some oid := h.find?_eq
  have hsame : (ofType type oid).run t = (.ok oid, t) := by
    rw [ofType, Action.run_get_bind, show t.heap.typeOf oid = type from h.type, if_pos rfl]
    rfl
  have hfind : (Manager.find type id).run m = (.ok (some oid), t) := by
    rw [Manager.find, Action.run_bind_of_ok hmd, hid, Action.liftM_ok, pure_bind,
      Action.run_get_bind, hslot]
    dsimp only
    rw [map_eq_pure_bind, Action.run_bind_of_ok hsame]
    rfl
  refine ⟨t, rfl, hfind, ?_, ?_⟩
  · rw [reference, Action.run_bind_of_ok hmd, hid, Action.liftM_ok, pure_bind,
      Action.run_get_bind, hslot]
    dsimp only
    rw [map_eq_pure_bind, Action.run_bind_of_ok hsame]
    rfl
  · rw [Reference.resolve, Action.run_bind_of_ok hfind]
    rfl

/-- An instance in a slot stays there as long as it is neither detached nor deleted: whoever looks
its key up in whatever spelling gets this instance, and the connection is not asked. -/
theorem identity_stable (h : Reachable anyOperation m) (hf : m.Faithful)
    (happart : m.IdentifiersApart) (hslot : m.work.slots.get? key = some oid)
    (hsole : ∀ j, j ≠ oid → m.work.keyOf j ≠ some key)
    (hkeys : ∀ j k, m.work.keyOf j = some k → m.HasKey j k) (hserves : Serves oid m m') :
    ∃ md, m.registry.view key.className = .ok md ∧ ∀ id, IdentityKey.Spells md key id →
      ∃ t, t.session = m'.session ∧
        (Manager.find (m.heap.typeOf oid) id).run m' = (.ok (some oid), t) ∧
        (reference (m.heap.typeOf oid) id).run m' = (.ok (.loaded oid), t) ∧
        (Reference.resolve (.unloaded (m.heap.typeOf oid) id)).run m' = (.ok oid, t) := by
  obtain ⟨hsound, -⟩ := h.described
  obtain ⟨md, ids, hview, -, hkey⟩ := hkeys oid key (h.consistent.keyOf_slot key oid hslot)
  have hbelongs := IdentityKey.belongs_of_ofSnapshot hkey
  have hclass : (m.heap.typeOf oid).className = key.className := by
    rw [hbelongs.className_eq, Schema.Registry.className_of_view hsound hview]
  have hidentifiers := ((IdentityKey.full_of_ofSnapshot hkey).exists_value hbelongs).1
  have hanchored := hserves.anchored hsound hf happart (h.anchored hslot hsole hkeys)
  rw [hclass] at hview
  refine ⟨md, hview, fun id hid => hanchored.look_up hsound hview ?_ hclass⟩
  exact IdentityKey.ofIdentifier_of_spells hbelongs hidentifiers hid

section Samples

open Sample

structure Crowd where

instance : Connection Crowd where
  query _ parameters := pure <| match parameters with
    | [.int n] => [userRow (.int n) "Ann"]
    | _ => []
  update _ _ := pure 1
  lastInsertId := pure "1"
  begin := pure ()
  commit := pure ()
  rollback := pure ()

theorem rowsCarry_crowd (key : IdentityKey) : RowsCarry Crowd userMetadata key := by
  intro c row hrow f hf
  have hselect : key.select userMetadata = .select {
      table := "users", projection := .columns userMetadata.columns
      filter := [("id", (key.get? "id").getD .null)] } := rfl
  rw [hselect] at hrow
  cases hget : key.get? "id" with
  | none =>
    rw [hget] at hrow
    exact absurd hrow List.not_mem_nil
  | some v =>
    rw [hget] at hrow
    cases v with
    | int n =>
      obtain rfl := List.mem_singleton.mp hrow
      obtain rfl := List.mem_singleton.mp hf
      exact ⟨.int n, .int n, rfl, rfl, hget⟩
    | _ => exact absurd hrow List.not_mem_nil

def found : Manager (Recorded Crowd) :=
  (Operation.find user (.scalar (.int 1))).after
    (Sample.manager [userObject none "Bob"] { inner := ⟨⟩ })

theorem reachable_found : Reachable anyOperation found := by
  have built : Reachable anyOperation (Sample.manager [userObject none "Bob"]
      ({ inner := ⟨⟩ } : Recorded Crowd)) := .built (build_manager ..)
  exact built.run ((Runs.done _).operation (.find _ _) trivial)

theorem view_found : found.registry.view = (Schema.Registry.empty.register "User" userMapping).view :=
  ((Operation.find user (.scalar (.int 1))).within_run _).view_eq (Schema.Registry.sound_of_memo_eq rfl)

theorem className_of_view_register {only className : String} {mapping : Schema.Mapping}
    {md : Metadata} (h : (Schema.Registry.empty.register only mapping).view className = .ok md) :
    className = only := by
  have hsound : (Schema.Registry.empty.register only mapping).Sound :=
    Schema.Registry.sound_of_memo_eq rfl
  rw [hsound.view_eq] at h
  split at h
  · simp at h
  · rw [Schema.Registry.build, Schema.Registry.register, OrderedMap.get?_insert] at h
    by_contra hclass
    rw [if_neg (Ne.symm hclass)] at h
    simp [Schema.Registry.empty] at h

theorem eq_of_view_found {className : String} {md : Metadata}
    (h : found.registry.view className = .ok md) : md = userMetadata := by
  rw [view_found] at h
  obtain rfl := className_of_view_register h
  exact (Except.ok.inj h).symm

theorem faithful_found : found.Faithful where
  rows className md id key hview _ := eq_of_view_found hview ▸ rowsCarry_crowd key
  stores className md hview f hf := by
    obtain rfl := eq_of_view_found hview
    obtain rfl := List.mem_singleton.mp hf
    have hfresh : found.heap.fresh user = ⟨user, userSlots none ""⟩ := by decide +kernel
    refine ⟨⟨.int64, true⟩, ?_, rfl⟩
    change (found.heap.fresh user).storages[0]? = _
    rw [hfresh]
    rfl

theorem identifiersApart_found : found.IdentifiersApart := by
  intro className md hview
  rw [eq_of_view_found hview, Schema.Metadata.IdentifiersApart]
  unfold Schema.Field.OwnSlot
  decide

def userKey (n : Int64) : IdentityKey := ⟨"User", [("id", .int n)]⟩

theorem eq_of_keyOf {w : UnitOfWork} {oid j : Oid} {key k : IdentityKey}
    (hsole : ∀ e ∈ w.tracked.toList, e.1 = oid ∧ e.2.key = some key) (h : w.keyOf j = some k) :
    j = oid ∧ k = key := by
  obtain ⟨t, ht, hkey⟩ := UnitOfWork.exists_of_keyOf h
  obtain ⟨hoid, hkey'⟩ := hsole _ ((w.tracked.get?_eq_some_iff j t).mp ht)
  exact ⟨hoid, Option.some.inj (hkey.symm.trans hkey')⟩

theorem keyOf_found {oid : Oid} {key : IdentityKey} (h : found.work.keyOf oid = some key) :
    oid = ⟨1⟩ ∧ key = userKey 1 := eq_of_keyOf (by decide +kernel) h

def crowded : Manager (Recorded Crowd) :=
  let persisted := ((Request.persist ⟨0⟩).run.run found).2
  let failed := (Request.flush.run.run persisted).2
  let more := ((Request.find user (.scalar (.int 3))).run.run failed).2
  ((Request.detach ⟨2⟩).run.run more).2

theorem serves_crowded : Serves ⟨1⟩ found crowded := by
  refine .request _ (.request _ (.request _ (.request _ (.done _) ?_) ?_) ?_) ?_
  · exact trivial
  · intro _
    decide +kernel
  · exact trivial
  · exact fun h => by simp at h

theorem identity_stable_crowded :
    (flush.run ((Operation.persist ⟨0⟩).after found)).1.isOk = false ∧ ∃ t t',
      t.session = crowded.session ∧ t'.session = crowded.session ∧
      (Manager.find user (.scalar (.text "1"))).run crowded = (.ok (some ⟨1⟩), t) ∧
      (Reference.resolve (.unloaded user (.composite (.ofList [("id", .int 1)])))).run crowded =
        (.ok ⟨1⟩, t') := by
  have hslot : found.work.slots.get? (userKey 1) = some ⟨1⟩ := by decide +kernel
  have hsole : ∀ j, j ≠ ⟨1⟩ → found.work.keyOf j ≠ some (userKey 1) :=
    fun j hj hkey => hj (keyOf_found hkey).1
  have hcontent : found.heap.content ⟨1⟩ = ⟨user, userSlots (some 1) "Ann"⟩ := by decide +kernel
  have htype : found.heap.typeOf ⟨1⟩ = user := by rw [Heap.typeOf, hcontent]
  have hkeys : ∀ j k, found.work.keyOf j = some k → found.HasKey j k := by
    intro j k hk
    obtain ⟨rfl, rfl⟩ := keyOf_found hk
    refine ⟨userMetadata, [("id", .int 1)], ?_, ?_, by decide +kernel⟩
    · rw [view_found, htype]
      rfl
    · rw [hcontent]
      rfl
  obtain ⟨md, hview, hlook⟩ := identity_stable reachable_found faithful_found
    identifiersApart_found hslot hsole hkeys serves_crowded
  obtain rfl := eq_of_view_found hview
  rw [htype] at hlook
  obtain ⟨t, ht, hfind, -⟩ := hlook (.scalar (.text "1"))
    ⟨"id", .int 1, rfl, by decide +kernel, by decide +kernel⟩
  have hspells : IdentityKey.Spells userMetadata (userKey 1)
      (.composite (.ofList [("id", .int 1)])) := by
    refine ⟨fun name => Iff.rfl, fun name v hv => ?_⟩
    have hmem : (name, v) ∈ [("id", Value.int 1)] := (OrderedMap.get?_eq_some_iff _ name v).mp hv
    obtain ⟨rfl, rfl⟩ := Prod.mk.inj (List.mem_singleton.mp hmem)
    exact ⟨.int 1, by decide +kernel, by decide +kernel⟩
  obtain ⟨t', ht', -, -, hresolve⟩ := hlook _ hspells
  exact ⟨by decide +kernel, t, t', ht, ht', hfind, hresolve⟩

def lamp : EntityType := ⟨"Lamp", 0⟩

def lampMapping : Schema.Mapping where
  isEntity := true
  table := some "lamps"
  fields :=
    [{ name := "outside", type := .boolean, accessor := ⟨lamp, 0⟩, isIdentifier := true },
     { name := "lit", type := .boolean, accessor := ⟨lamp, 0⟩ },
     { name := "label", type := .string, accessor := ⟨lamp, 1⟩ }]

def lampMetadata : Metadata := lampMapping.toMetadata "Lamp" (by decide)

theorem convert_label (label : String) :
    (⟨.text, false⟩ : Storage).convert (.text label) = .ok (.text label) := rfl

def lampSlots (outside : Option Bool) (label : String) : List Slot :=
  [⟨"outside", ⟨.bool, true⟩, outside.elim .null .bool, by cases outside <;> rfl⟩,
   ⟨"label", ⟨.text, false⟩, .text label, convert_label label⟩]

structure House where

instance : Connection House where
  query _ parameters := pure <| match parameters with
    | [.bool b] => [.ofList [("outside", .bool b), ("lit", .bool false), ("label", .text "lamp")]]
    | _ => []
  update _ _ := pure 1
  lastInsertId := pure "1"
  begin := pure ()
  commit := pure ()
  rollback := pure ()

theorem rowsCarry_house (key : IdentityKey) : RowsCarry House lampMetadata key := by
  intro c row hrow f hf
  have hselect : key.select lampMetadata = .select {
      table := "lamps", projection := .columns lampMetadata.columns
      filter := [("outside", (key.get? "outside").getD .null)] } := rfl
  rw [hselect] at hrow
  cases hget : key.get? "outside" with
  | none =>
    rw [hget] at hrow
    exact absurd hrow List.not_mem_nil
  | some v =>
    rw [hget] at hrow
    cases v with
    | bool b =>
      obtain rfl := List.mem_singleton.mp hrow
      obtain rfl := List.mem_singleton.mp hf
      exact ⟨.bool b, .bool b, rfl, rfl, hget⟩
    | _ => exact absurd hrow List.not_mem_nil

def house : Manager (Recorded House) where
  heap := ⟨.ofList [(lamp, lampSlots none "")], []⟩
  session := { connection := { inner := ⟨⟩ } }
  registry := Schema.Registry.empty.register "Lamp" lampMapping
  cache := .empty
  work := .empty

def inside : Manager (Recorded House) :=
  (Operation.find lamp (.scalar (.bool false))).after house

def lampKey (outside : Bool) : IdentityKey := ⟨"Lamp", [("outside", .bool outside)]⟩

def both : Manager (Recorded House) :=
  ((Request.find lamp (.scalar (.bool true))).run.run inside).2

def relabelled : Manager (Recorded House) :=
  let edited := both.heap.put ⟨1⟩ ⟨lamp, lampSlots (some false) "gate"⟩
  (Request.flush.run.run ((Request.edit edited).run.run both).2).2

theorem content_both : both.heap.content ⟨1⟩ = ⟨lamp, lampSlots (some false) "lamp"⟩ := by
  decide +kernel

theorem leavesIdentifiers_relabelled :
    both.LeavesIdentifiers (both.heap.put ⟨1⟩ ⟨lamp, lampSlots (some false) "gate"⟩) := by
  have hsize : both.heap.objects.length = 2 := by decide +kernel
  have hput : (both.heap.put ⟨1⟩ ⟨lamp, lampSlots (some false) "gate"⟩).content ⟨1⟩ =
      ⟨lamp, lampSlots (some false) "gate"⟩ := Heap.content_put _ (by rw [hsize]; decide)
  have hother (oid : Oid) (hoid : oid ≠ ⟨1⟩) (x : Instance) :
      (both.heap.put ⟨1⟩ x).content oid = both.heap.content oid := by
    rw [Heap.content, Heap.object_put_of_ne x hoid, Heap.content]
  have hmetadata : ∀ e ∈ both.work.tracked.toList, e.2.metadata = lampMetadata := by decide +kernel
  refine ⟨by simp [Heap.put], fun oid _ => ?_, fun _ => rfl, fun oid t ht _ f hf => ?_⟩
  · by_cases hoid : oid = ⟨1⟩
    · rw [hoid, Heap.typeOf, Heap.typeOf, hput, content_both]
    · rw [Heap.typeOf, hother oid hoid, Heap.typeOf]
  · by_cases hoid : oid = ⟨1⟩
    · rw [hmetadata (oid, t) ((OrderedMap.get?_eq_some_iff ..).mp ht)] at hf
      obtain rfl := List.mem_singleton.mp hf
      rw [hoid, hput, content_both]
      rfl
    · rw [hother oid hoid]

theorem serves_relabelled : Serves ⟨0⟩ inside relabelled := by
  refine .request _ (.request _ (.request _ (.done _) ?_) ?_) ?_
  · exact trivial
  · exact leavesIdentifiers_relabelled
  · intro _
    decide +kernel

theorem view_inside :
    inside.registry.view = (Schema.Registry.empty.register "Lamp" lampMapping).view :=
  ((Operation.find lamp (.scalar (.bool false))).within_run _).view_eq
    (Schema.Registry.sound_of_memo_eq rfl)

theorem eq_of_view_inside {className : String} {md : Metadata}
    (h : inside.registry.view className = .ok md) : md = lampMetadata := by
  rw [view_inside] at h
  obtain rfl := className_of_view_register h
  exact (Except.ok.inj h).symm

theorem faithful_inside : inside.Faithful where
  rows className md id key hview _ := eq_of_view_inside hview ▸ rowsCarry_house key
  stores className md hview f hf := by
    obtain rfl := eq_of_view_inside hview
    obtain rfl := List.mem_singleton.mp hf
    have hfresh : inside.heap.fresh lamp = ⟨lamp, lampSlots none ""⟩ := by decide +kernel
    refine ⟨⟨.bool, true⟩, ?_, rfl⟩
    change (inside.heap.fresh lamp).storages[0]? = _
    rw [hfresh]
    rfl

theorem keyOf_inside {oid : Oid} {key : IdentityKey} (h : inside.work.keyOf oid = some key) :
    oid = ⟨0⟩ ∧ key = lampKey false := eq_of_keyOf (by decide +kernel) h

/-- Another field in the slot of the identifier makes an instance pass for the one that it is not,
and the next flush gives it the slot of that one. A blank is refused even if it is coerced to the
identifier. -/
theorem identity_not_stable :
    Reachable anyOperation inside ∧ inside.Faithful ∧
      inside.work.slots.get? (lampKey false) = some ⟨0⟩ ∧
      (∀ j, j ≠ ⟨0⟩ → inside.work.keyOf j ≠ some (lampKey false)) ∧
      (∀ j k, inside.work.keyOf j = some k → inside.HasKey j k) ∧ Serves ⟨0⟩ inside relabelled ∧
      ((find lamp (.scalar (.bool false))).run relabelled).1.toOption = some (some ⟨1⟩) ∧
      Schema.FieldType.boolean.coerce (.text "") = .ok (.bool false) ∧
      ((find lamp (.scalar (.text ""))).run inside).1.isOk = false := by
  refine ⟨?_, faithful_inside, by decide +kernel, fun j hj hkey => hj (keyOf_inside hkey).1,
    fun j k hk => ?_, serves_relabelled, by decide +kernel, rfl, by decide +kernel⟩
  · have hbuild : build { registrations := [⟨lamp, lampMapping⟩] } house.heap
        house.session.connection = .ok house := rfl
    exact (Reachable.built hbuild).run ((Runs.done _).operation (.find _ _) trivial)
  · obtain ⟨rfl, rfl⟩ := keyOf_inside hk
    have hcontent : inside.heap.content ⟨0⟩ = ⟨lamp, lampSlots (some false) "lamp"⟩ := by
      decide +kernel
    refine ⟨lampMetadata, [("outside", .bool false)], ?_, ?_, by decide +kernel⟩
    · rw [view_inside, Heap.typeOf, hcontent]
      rfl
    · rw [hcontent]
      rfl

end Samples

end Persistence.Manager
