import Persistence.Proofs.Addresses
import Persistence.Proofs.EntityTypes
import Persistence.Proofs.Inquiries
import Persistence.Proofs.Memoization
import Persistence.Proofs.Sample

/-!
The types of what is tracked. Classes are registered by name, while accessors are for one type, so a
type that merely goes by the name of a registered one has to be kept out. Finding, refreshing and
resolving do so, for they read an instance before they track it. To persist an instance only the
name of its class is looked up: where it is of an unregistered type, it is tracked all the same, and
every later flush fails. `Operation.Strays` names this case, and there is no other.
-/

namespace Persistence.Manager

open Schema (Metadata Registry Mapping)

variable {σ α : Type}

def Unambiguous (types : List EntityType) : Prop :=
  ∀ s ∈ types, ∀ t ∈ types, s.className = t.className → s = t

theorem unambiguous_registerAll {earlier : List EntityType} {r r' : Registry}
    {rs : List Registration} (h : registerAll earlier r rs = .ok r')
    (hearlier : Unambiguous earlier) : Unambiguous (earlier ++ rs.map Registration.type) := by
  induction rs generalizing earlier r with
  | nil => simpa using hearlier
  | cons x rest ih =>
    rw [registerAll] at h
    split at h
    · rename_i t ht
      split at h
      · rename_i htype
        have hx : x.type ∈ earlier := htype ▸ List.mem_of_find?_eq_some ht
        have hmem : ∀ s ∈ earlier ++ (x :: rest).map Registration.type,
            s ∈ earlier ++ rest.map Registration.type := by
          intro s hs
          rw [List.map_cons, List.mem_append, List.mem_cons] at hs
          rw [List.mem_append]
          rcases hs with hs | rfl | hs
          · exact .inl hs
          · exact .inl hx
          · exact .inr hs
        exact fun s hs t ht => ih h hearlier s (hmem s hs) t (hmem t ht)
      · simp at h
    · rename_i hnone
      have hnew : ∀ t ∈ earlier, t.className ≠ x.type.className := fun t ht => by
        simpa using List.find?_eq_none.mp hnone t ht
      rw [List.map_cons, List.append_cons]
      refine ih h fun s hs t ht hname => ?_
      rw [List.mem_append, List.mem_singleton] at hs ht
      rcases hs with hs | rfl
      · rcases ht with ht | rfl
        · exact hearlier s hs t ht hname
        · exact absurd hname (hnew s hs)
      · rcases ht with ht | rfl
        · exact absurd hname.symm (hnew t ht)
        · rfl

theorem mapping_registerAll {earlier : List EntityType} {r r' : Registry} {rs : List Registration}
    {className : String} {mapping : Mapping} (h : registerAll earlier r rs = .ok r')
    (hmapping : r'.mappings.get? className = some mapping) :
    r.mappings.get? className = some mapping ∨
      ∃ x ∈ rs, x.type.className = className ∧ x.mapping = mapping := by
  induction rs generalizing earlier r with
  | nil =>
    rw [← Except.ok.inj h] at hmapping
    exact .inl hmapping
  | cons x rest ih =>
    have later : (∃ y ∈ rest, y.type.className = className ∧ y.mapping = mapping) →
        ∃ y ∈ x :: rest, y.type.className = className ∧ y.mapping = mapping :=
      fun ⟨y, hy, h⟩ => ⟨y, List.mem_cons_of_mem x hy, h⟩
    rw [registerAll] at h
    split at h
    · split at h
      · exact (ih h).imp id later
      · simp at h
    · rcases ih h with hr | hrest
      · rw [Registry.register, OrderedMap.get?_insert] at hr
        split at hr
        · rename_i hname
          exact .inr ⟨x, List.mem_cons_self, hname, Option.some.inj hr⟩
        · exact .inl hr
      · exact .inr (later hrest)

namespace Options

/-- Each mapping declares accessors for the type that it is registered with. -/
def Owned (o : Options) : Prop :=
  ∀ x ∈ o.registrations, ∀ f ∈ x.mapping.fields, f.accessor.owner = x.type

def Registers (o : Options) (type : EntityType) : Prop := ∃ x ∈ o.registrations, x.type = type

structure Describes (o : Options) (type : EntityType) (md : Metadata) : Prop where
  registers : o.Registers type
  sole : ∀ x ∈ o.registrations, x.type.className = md.className → x.type = type
  className : md.className = type.className
  accessors : md.For type

structure Yields (o : Options) (r : Registry) : Prop where
  sound : r.Sound
  named : ∀ className md, r.view className = .ok md → className ≠ ""
  describes : ∀ className md, r.view className = .ok md →
    ∃ type, type.className = className ∧ o.Describes type md

variable {o : Options} {type other : EntityType} {md : Metadata}

theorem Describes.eq_of_for (h : o.Describes type md) (hne : md.identifiers ≠ [])
    (hfor : md.For other) : other = type := by
  obtain ⟨name, hname⟩ := List.exists_mem_of_ne_nil _ hne
  obtain ⟨f, hf, rfl⟩ := Metadata.exists_identifierField hname
  have hmem := (Metadata.mem_identifierFields.mp hf).1
  rw [← hfor f hmem, h.accessors f hmem]

end Options

theorem yields_of_build {o : Options} {heap : Heap} {connection : σ} {m : Manager σ}
    (hbuild : build o heap connection = .ok m) (howned : o.Owned) : o.Yields m.registry := by
  have hsound : m.registry.Sound := Registry.sound_of_memo_eq (memo_build hbuild)
  have hname (className : String) (md : Metadata) (h : m.registry.view className = .ok md) :
      Text.isBlankText className = false := by
    rw [hsound.view_eq] at h
    split at h
    · simp at h
    · rename_i hblank
      simpa using hblank
  have hr := registerAll_of_build hbuild
  refine ⟨hsound, fun className md h => ?_, fun className md h => ?_⟩
  · rintro rfl
    have := hname "" md h
    simp [Text.isBlankText] at this
  have hblank := hname className md h
  rw [hsound.view_eq, if_neg (by simp [hblank]), Registry.build] at h
  split at h
  · simp at h
  rename_i mapping hmapping
  obtain ⟨hnodup, -, rfl⟩ := Mapping.check_of_build h
  obtain hempty | ⟨x, hx, hxname, rfl⟩ := mapping_registerAll hr hmapping
  · simp [Registry.setMemoizing, Registry.empty] at hempty
  refine ⟨x.type, hxname, ⟨x, hx, rfl⟩, fun y hy hyname => ?_, hxname.symm, fun f hf => ?_⟩
  · refine unambiguous_registerAll hr (by simp [Unambiguous]) y.type ?_ x.type ?_ (hyname.trans hxname.symm)
    · exact List.mem_map_of_mem hy
    · exact List.mem_map_of_mem hx
  · obtain ⟨d, hd, rfl⟩ := List.mem_map.mp hf
    exact howned x hx d hd

/-- All that is tracked is there, and of the type that is registered under its class name. -/
def TracksRegistered (o : Options) (m : Manager σ) : Prop :=
  m.work.Every fun oid md _ => ∃ type, m.heap.types[oid.index]? = some type ∧ o.Describes type md

structure Typed (o : Options) (r : Registry) (m : Manager σ) : Prop where
  consistent : m.work.Consistent
  answers : r.Agrees m.registry
  tracked : m.TracksRegistered o

variable {o : Options} {r : Registry} {m t : Manager σ} {oid : Oid} {type : EntityType}
  {md : Metadata}

theorem TracksRegistered.fits (h : m.TracksRegistered o) : m.work.Fits m.heap := by
  intro oid t ht
  obtain ⟨type, htype, hdescribes⟩ := h oid t ht
  have hm : t.metadata.For type := hdescribes.accessors
  rwa [← Heap.typeOf_of_types htype] at hm

theorem TracksRegistered.later (h : m.TracksRegistered o) {heap : Heap}
    (hheap : m.heap.types <+: heap.types) :
    m.work.Every fun oid md _ => ∃ type, heap.types[oid.index]? = some type ∧
      o.Describes type md := by
  intro oid t ht
  obtain ⟨type, htype, hdescribes⟩ := h oid t ht
  obtain ⟨rest, hrest⟩ := hheap
  refine ⟨type, ?_, hdescribes⟩
  rw [← hrest, List.getElem?_append_left (List.getElem?_eq_some_iff.mp htype).1, htype]

theorem Typed.describes (h : Typed o r m) (hy : o.Yields r)
    (hmd : (metadata type).run m = (.ok md, t)) : type.className ≠ "" ∧
      ∃ known, known.className = type.className ∧ o.Describes known md := by
  have hview := view_of_metadata hmd
  rw [h.answers.view_eq hy.sound] at hview
  exact ⟨hy.named _ md hview, hy.describes _ md hview⟩

theorem Typed.types_of_metadata (h : Typed o r m) (hy : o.Yields r)
    (hmd : (metadata (m.heap.typeOf oid)).run m = (.ok md, t)) :
    m.heap.types[oid.index]? = some (m.heap.typeOf oid) := by
  have hname := (h.describes hy hmd).1
  rw [Heap.typeOf_eq] at hname ⊢
  cases htype : m.heap.types[oid.index]? with
  | none => simp [htype] at hname
  | some type => rfl

def KeepsTypes (m t : Manager σ) : Prop := m.heap.types <+: t.heap.types

instance : Std.Refl (KeepsTypes (σ := σ)) := ⟨fun m => List.prefix_refl m.heap.types⟩

instance : Trans (KeepsTypes (σ := σ)) KeepsTypes KeepsTypes := ⟨fun h h' => h.trans h'⟩

theorem KeepsTypes.of_eq (h : t.heap.types = m.heap.types) : m.KeepsTypes t :=
  ⟨[], (List.append_nil _).trans h.symm⟩

theorem KeepsTypes.of_heap (h : t.heap = m.heap) : m.KeepsTypes t := .of_eq (by rw [h])

/-- The caller changes instances but not their types. All other operations satisfy this. -/
def Operation.Proper (op : Operation) (m : Manager σ) : Prop :=
  ∀ heap, op = .edit heap → m.heap.types <+: heap.types

variable [Connection σ]

theorem keepsTypes_after {op : Operation} (hop : op.Proper m) : m.KeepsTypes (op.after m) := by
  have undisturbed {β : Type} {a : ManagerM σ β} (ha : a.Within Undisturbed) :
      m.KeepsTypes ((discard a).run m).2 := .of_heap (ha.discard m).heap
  cases op with
  | edit heap => exact hop heap rfl
  | find type id =>
    rw [← Operation.state_ask]
    refine Action.post_iff_run (P := m.KeepsTypes) |>.mp ?_
    refine (post_find_found type id m).mono (fun _ t ht => ?_) fun _ t ht => ?_
    · cases ht with
      | tracked hmd =>
        rw [(post_metadata type m).of_run_ok hmd]
        exact .of_heap rfl
      | absent hmd _ _ hread =>
        rw [((post_loadRow _ _ _).of_run_ok hread).1, (post_metadata type m).of_run_ok hmd]
        exact .of_heap rfl
      | loaded => exact m.heap.types_prefix_allocate _
    · obtain ⟨-, -, ht | ⟨x, ht⟩⟩ := ht
      · exact .of_heap ht
      · rw [KeepsTypes, ht]
        exact m.heap.types_prefix_allocate x
  | persist oid =>
    refine Action.post_iff_run (P := m.KeepsTypes) |>.mp ?_
    refine (post_persist oid m).mono (fun _ t ht => .of_heap ?_) fun _ t ht => .of_heap (by rw [ht])
    obtain ⟨md, described, -, ht⟩ := ht
    rw [ht]
  | remove oid =>
    refine Action.post_iff_run (P := m.KeepsTypes) |>.mp ?_
    refine (post_remove oid m).mono (fun _ t ht => .of_heap ?_) fun _ t ht => .of_heap (by rw [ht])
    obtain ⟨w, -, ht⟩ := ht
    rw [ht]
  | refresh oid =>
    have copied {loaded y : Instance} {fs : List Schema.Field} {e : Except Error Unit}
        (h : (copyFields loaded fs).run (m.heap.content oid) = (e, y)) :
        (m.heap.put oid y).types = m.heap.types := Heap.types_put (type_of_copyFields h)
    refine Action.post_iff_run (P := m.KeepsTypes) |>.mp ?_
    refine (post_refresh_tried oid m).mono (fun _ t ht => ?_) fun _ t ht => ?_
    · obtain ⟨-, -, -, -, -, -, hcopied, -⟩ := ht
      exact .of_eq (copied hcopied)
    · obtain ⟨-, -, ht | ⟨loaded, fs, e, y, hcopied, ht⟩⟩ := ht
      · exact .of_heap ht
      · exact .of_eq (ht ▸ copied hcopied)
  | detach | clear | clearMetadata | clearQueries => exact .of_heap rfl
  | flush =>
    refine Action.post_iff_run (P := m.KeepsTypes) |>.mp ?_
    exact (post_flush_types m).mono (fun _ t ht => .of_eq ht) fun _ t ht => .of_eq ht.1
  | describe type => exact undisturbed (Undisturbed.metadata type)
  | query sql parameters => exact undisturbed (Undisturbed.onSession _)
  | createQuery source => exact undisturbed (Undisturbed.createQuery source)

/-- The operation persists an instance of a type that is not registered, and succeeds. -/
def Operation.Strays (o : Options) (op : Operation) (m : Manager σ) : Prop :=
  ∃ oid t, op = .persist oid ∧ ¬ o.Registers (m.heap.typeOf oid) ∧
    (Manager.persist oid).run m = (.ok ⟨⟩, t)

/-- Instances keep their types, and none of an unregistered type is persisted. -/
def lawful (o : Options) (op : Operation) (m : Manager σ) : Prop :=
  op.Proper m ∧ ¬ op.Strays o m

namespace Typed

theorem find (h : Typed o r m) (hy : o.Yields r) (type : EntityType) (id : Identifier) :
    ((Operation.find type id).after m).TracksRegistered o := by
  rw [← Operation.state_ask]
  refine Action.post_iff_run (P := fun t : Manager σ => t.TracksRegistered o) |>.mp ?_
  refine (post_find_found type id m).mono (fun _ t ht => ?_) fun _ t ht => ?_
  case refine_2 =>
    obtain ⟨-, hwork, ht⟩ := ht
    rw [TracksRegistered, hwork]
    refine h.tracked.later ?_
    obtain ht | ⟨x, ht⟩ := ht
    · exact KeepsTypes.of_heap ht
    · rw [ht]
      exact m.heap.types_prefix_allocate x
  cases ht with
  | tracked hmd =>
    rw [(post_metadata type m).of_run_ok hmd]
    exact h.tracked
  | absent hmd _ _ hread =>
    rw [((post_loadRow _ _ _).of_run_ok hread).1, (post_metadata type m).of_run_ok hmd]
    exact h.tracked
  | @loaded md key _ _ _ x s hmd hkey _ _ hhydrate hs =>
    obtain ⟨-, known, -, hdescribes⟩ := h.describes hy hmd
    have hids := ((IdentityKey.full_of_ofIdentifier hkey).exists_value
      (IdentityKey.belongs_of_ofIdentifier hkey)).1
    have hknown : x.type = known := hdescribes.eq_of_for hids (owner_of_readFields hs)
    refine (h.tracked.later (m.heap.types_prefix_allocate x)).track ⟨known, ?_, hdescribes⟩ _
    rw [Heap.types_allocate, hknown]
    simp [Heap.types]

theorem refresh (h : Typed o r m) (hy : o.Yields r) (oid : Oid) :
    ((Operation.refresh oid).after m).TracksRegistered o := by
  have hkeeps : m.KeepsTypes ((Operation.refresh oid).after m) :=
    keepsTypes_after fun heap hop => by simp at hop
  have hpost := Action.post_iff.mp (post_refresh_tried oid m)
  refine Action.post_iff_run (P := fun t : Manager σ => t.TracksRegistered o) |>.mp ?_
  refine Action.post_iff.mpr ⟨fun _ t ht => ?_, fun e t ht => ?_⟩
  all_goals
    rw [Operation.after, ht] at hkeeps
  case refine_2 =>
    obtain ⟨-, hwork, -⟩ := hpost.2 e t ht
    obtain hwork | hwork := hwork
    · rw [TracksRegistered, hwork]
      exact h.tracked.later hkeeps
    · rw [TracksRegistered, hwork]
      exact (h.tracked.later hkeeps).detach oid
  obtain ⟨hmd, hx, hids, hkey, hread, hhydrate, hcopied, hs⟩ := hpost.1 _ t ht
  rename_i md key described read ids s row x y loaded
  obtain ⟨-, known, -, hdescribes⟩ := h.describes hy hmd
  have hne := ((IdentityKey.full_of_ofSnapshot hkey).exists_value
    (IdentityKey.belongs_of_ofSnapshot hkey)).1
  have htype : y.type = m.heap.typeOf oid := type_of_copyFields hcopied
  have hknown : y.type = known := hdescribes.eq_of_for hne (owner_of_readFields hs)
  refine ((h.tracked.later hkeeps).detach oid).track ⟨known, ?_, hdescribes⟩ _
  rw [Heap.types_put htype, h.types_of_metadata hy hmd, ← htype, hknown]

theorem persist (h : Typed o r m) (hy : o.Yields r) (oid : Oid)
    (hstrays : ¬ (Operation.persist oid).Strays o m) :
    ((Operation.persist oid).after m).TracksRegistered o := by
  have hpost := Action.post_iff.mp (post_persist oid m)
  refine Action.post_iff_run (P := fun t : Manager σ => t.TracksRegistered o) |>.mp ?_
  refine Action.post_iff.mpr ⟨fun _ t ht => ?_, fun e t ht => ?_⟩
  case refine_2 =>
    rw [hpost.2 e t ht]
    exact h.tracked
  obtain ⟨md, described, hmd, heq⟩ := hpost.1 _ t ht
  obtain ⟨-, known, hname, hdescribes⟩ := h.describes hy hmd
  obtain ⟨x, hx, hxtype⟩ : o.Registers (m.heap.typeOf oid) := by
    by_contra hnot
    exact hstrays ⟨oid, t, rfl, hnot, ht⟩
  have hknown : m.heap.typeOf oid = known := by
    rw [← hxtype]
    exact hdescribes.sole x hx (by rw [hxtype, hdescribes.className, hname])
  rw [heq]
  refine h.tracked.persist ⟨known, ?_, hdescribes⟩
  rw [← hknown]
  exact h.types_of_metadata hy hmd

theorem after (h : Typed o r m) (hy : o.Yields r) {op : Operation} (hop : lawful o op m) :
    Typed o r (op.after m) where
  consistent := (effect op m).1.consistent h.consistent
  answers := Trans.trans (r := Registry.Agrees) h.answers (op.within_run m)
  tracked := by
    cases op with
    | find type id => exact h.find hy type id
    | refresh oid => exact h.refresh hy oid
    | persist oid => exact h.persist hy oid hop.2
    | edit | remove | detach | clear | flush | describe | query | createQuery | clearMetadata
      | clearQueries =>
      exact (effect _ m).1.every h.consistent (h.tracked.later (keepsTypes_after hop.1))
        fun _ _ _ => by simp

end Typed

theorem Typed.keptOver (h : Typed o r m) (hy : o.Yields r) :
    KeptOver (lawful o) m.work fun t => Typed o r t ∧ m.KeepsTypes t where
  operation _ _ hop ht := ⟨ht.1.after hy hop, ht.2.trans (keepsTypes_after hop.1)⟩
  begin _ ht := ⟨⟨ht.1.consistent, ht.1.answers, ht.1.tracked⟩, ht.2⟩
  commit _ ht := ⟨⟨ht.1.consistent, ht.1.answers, ht.1.tracked⟩, ht.2⟩
  rollback _ ht := ⟨⟨ht.1.consistent, ht.1.answers, ht.1.tracked⟩, ht.2⟩
  restore _ ht := ⟨⟨h.consistent, ht.1.answers, h.tracked.later ht.2⟩, ht.2⟩

theorem Typed.runs (hy : o.Yields r) {m' : Manager σ} (hruns : Runs (lawful o) m m')
    (h : Typed o r m) : Typed o r m' ∧ m.KeepsTypes m' :=
  hruns.kept_along (R := KeepsTypes) (fun _ ht => ht.keptOver hy) h

/-- The states that a manager can come to from one state, those inside of blocks included. -/
inductive Reached (allowed : Operation → Manager σ → Prop) (start : Manager σ) : Manager σ → Prop
  | start : Reached allowed start start
  | run {m m' : Manager σ} : Reached allowed start m → Runs allowed m m' → Reached allowed start m'
  | entered {m inner : Manager σ} : Reached allowed start m → Begins m inner →
      Reached allowed start inner

theorem Reached.typed (hy : o.Yields r) {start : Manager σ} (hm : Reached (lawful o) start m)
    (hstart : Typed o r start) : Typed o r m := by
  induction hm with
  | start => exact hstart
  | run _ hruns ih => exact (Typed.runs hy hruns ih).1
  | @entered m inner _ hinner ih =>
    have hP := ((ih.keptOver hy).begin m ⟨ih, Std.Refl.refl m⟩).1
    rwa [hinner] at hP

omit [Connection σ] in
theorem typed_of_build {heap : Heap} {connection : σ} (hbuild : build o heap connection = .ok m) :
    Typed o m.registry m := by
  refine ⟨?_, Std.Refl.refl m.registry, ?_⟩
  · rw [(build_start hbuild).1]
    exact UnitOfWork.consistent_empty
  · rw [TracksRegistered, (build_start hbuild).1]
    exact UnitOfWork.every_empty _

theorem Operation.Strays.not_tracksRegistered {op : Operation} (h : op.Strays o m) :
    ¬ (op.after m).TracksRegistered o := by
  obtain ⟨oid, t, rfl, hnot, ht⟩ := h
  obtain ⟨md, described, -, heq⟩ := (post_persist oid m).of_run_ok ht
  obtain ⟨tracked, htracked⟩ := m.work.exists_get?_persist oid md
  intro hafter
  rw [Operation.after, Operation.run, ht, heq] at hafter
  obtain ⟨type, htype, hdescribes⟩ := hafter oid tracked htracked
  exact hnot (Heap.typeOf_of_types htype ▸ hdescribes.registers)

omit [Connection σ] in
theorem Options.Describes.typeOf_of_wrote (hmd : o.Describes type md) {w : UnitOfWork}
    {c : ChangeSet} {written : List Written} {h h' : Heap} {x : Written} {tracked : Tracked}
    (hall : w.WroteAll c written h h') (hx : x ∈ written)
    (ht : w.tracked.get? x.oid = some tracked) (htracked : tracked.metadata = md) :
    h'.typeOf x.oid = type := by
  subst htracked
  obtain ⟨t, ht', hvalues⟩ := hall.holds x hx
  obtain rfl := Option.some.inj (ht.symm.trans ht')
  have hkey := hall.wrote.keyed x hx tracked ht
  have hne := ((IdentityKey.full_of_ofSnapshot hkey).exists_value
    (IdentityKey.belongs_of_ofSnapshot hkey)).1
  exact hmd.eq_of_for hne (Heap.for_of_values hvalues)

theorem Operation.Strays.flush_fails {op : Operation} (h : op.Strays o m) (hm : Typed o r m)
    (hy : o.Yields r) (t : Manager σ) : flush.run (op.after m) ≠ (.ok ⟨⟩, t) := by
  obtain ⟨oid, persisted, rfl, hnot, hrun⟩ := h
  obtain ⟨md, described, hmd, heq⟩ := (post_persist oid m).of_run_ok hrun
  obtain ⟨-, known, -, hdescribes⟩ := hm.describes hy hmd
  have hfree : m.work.tracked.get? oid = none := by
    refine Option.eq_none_iff_forall_ne_some.mpr fun tracked htracked => ?_
    obtain ⟨type, htype, hknown⟩ := hm.tracked oid tracked htracked
    exact hnot (Heap.typeOf_of_types htype ▸ hknown.registers)
  have hwork : persisted.work = { m.work with
      tracked := m.work.tracked.insert oid ⟨md, .new, [], none⟩
      insertions := enqueue oid m.work.insertions } := by
    rw [heq, UnitOfWork.persist, hfree]
  have hconsistent : persisted.work.Consistent := by
    rw [heq]
    exact hm.consistent.persist oid md
  have hmem : oid ∈ persisted.work.insertions := by
    rw [hwork]
    exact mem_enqueue.mpr (.inl rfl)
  have htracked : persisted.work.tracked.get? oid = some ⟨md, .new, [], none⟩ := by
    rw [hwork, OrderedMap.get?_insert, if_pos rfl]
  rw [Operation.after, Operation.run, hrun]
  intro hflush
  obtain ⟨c, hc, ⟨hempty, -⟩ | ⟨-, written, hall, -⟩⟩ :=
    (post_flush_wrote hconsistent).of_run_ok hflush
  · have hins := (UnitOfWork.changeSet_eq hc).1
    simp [ChangeSet.isEmpty, hins, List.ne_nil_of_mem hmem] at hempty
  · obtain ⟨x, hx, rfl⟩ := hall.wrote.covers oid hmem
    have htype := hdescribes.typeOf_of_wrote hall hx htracked rfl
    rw [Heap.typeOf_congr ((post_flush_types persisted).of_run_ok hflush), heq] at htype
    exact hnot (htype ▸ hdescribes.registers)

/-- As long as no instance of an unregistered type is persisted, all that is tracked is of the type
that is registered under its class name. So no flush fails for an instance of another type, and
resolving a reference tracks none. To persist one is the only way to track it, and no flush succeeds
after that. -/
theorem registered_of_tracked {heap : Heap} {connection : σ} {start : Manager σ}
    (hbuild : build o heap connection = .ok start) (howned : o.Owned)
    (hm : Reached (lawful o) start m) :
    m.TracksRegistered o ∧
    (∀ e t, flush.run m = (.error e, t) → e.IsForeign →
      ∃ cause, Connection.Fails σ cause ∧ cause.IsForeign) ∧
    (∀ reference : Reference, TracksRegistered o (reference.resolve.run m).2) ∧
    ∀ op : Operation, op.Proper m →
      ((op.after m).TracksRegistered o ↔ ¬ op.Strays o m) ∧
      (op.Strays o m → ∀ t, flush.run (op.after m) ≠ (.ok ⟨⟩, t)) := by
  have hy := yields_of_build hbuild howned
  have htyped := hm.typed hy (typed_of_build hbuild)
  refine ⟨htyped.tracked, fun e t ht => ?_, fun reference => ?_, fun op hop => ⟨⟨fun hafter hstrays =>
    hstrays.not_tracksRegistered hafter, fun hstrays => (htyped.after hy ⟨hop, hstrays⟩).tracked⟩,
    fun hstrays => hstrays.flush_fails htyped hy⟩⟩
  · exact ((post_flush_types m).of_run_error ht).2 htyped.tracked.fits
  · cases reference with
    | loaded oid => exact htyped.tracked
    | unloaded type id =>
      have hfound : TracksRegistered o ((Manager.find type id).run m).2 := by
        have hafter := htyped.find hy type id
        rwa [← Operation.state_ask] at hafter
      rw [Reference.resolve, Action.run_bind]
      split <;> rename_i hrun <;> rw [hrun] at hfound
      · split <;> exact hfound
      · exact hfound

def impostor : EntityType := ⟨"User", 2⟩

def userOptions : Options := { registrations := [⟨Sample.user, Sample.userMapping⟩] }

def mingled : Manager Sample.Scripted :=
  Sample.manager [Sample.userObject none "Ann", ⟨⟨impostor, Sample.userSlots none "Eve"⟩, .none⟩] {}

theorem owned_userOptions : userOptions.Owned := by
  unfold Options.Owned
  decide

theorem not_registers_impostor : ¬ userOptions.Registers impostor := by
  rintro ⟨x, hx, htype⟩
  rw [List.mem_singleton.mp hx] at htype
  exact absurd htype (by decide)

theorem build_mingled : build userOptions mingled.heap {} = .ok mingled := rfl

theorem registered_of_tracked_user :
    userOptions.Owned ∧ Reached (lawful userOptions) mingled ((Operation.persist ⟨0⟩).after mingled) ∧
      ((Operation.persist ⟨0⟩).after mingled).work.size = 1 ∧
      ((Operation.persist ⟨0⟩).after mingled).TracksRegistered userOptions ∧
      (Operation.persist ⟨1⟩).Strays userOptions ((Operation.persist ⟨0⟩).after mingled) ∧
      ∀ t, flush.run ((Operation.persist ⟨1⟩).after ((Operation.persist ⟨0⟩).after mingled)) ≠
        (.ok ⟨⟩, t) := by
  have hstays : ¬ (Operation.persist ⟨0⟩).Strays userOptions mingled := by
    rintro ⟨oid, t, hop, hnot, -⟩
    obtain rfl : (⟨0⟩ : Oid) = oid := Operation.persist.inj hop
    exact hnot ⟨_, List.mem_singleton_self _, rfl⟩
  have hreached : Reached (lawful userOptions) mingled ((Operation.persist ⟨0⟩).after mingled) :=
    Reached.start.run ((Runs.done _).operation (.persist ⟨0⟩) ⟨fun _ h => by simp at h, hstays⟩)
  have hstrays : (Operation.persist ⟨1⟩).Strays userOptions
      ((Operation.persist ⟨0⟩).after mingled) := ⟨⟨1⟩, _, rfl, not_registers_impostor, rfl⟩
  obtain ⟨htracks, -, -, hop⟩ := registered_of_tracked build_mingled owned_userOptions hreached
  exact ⟨owned_userOptions, hreached, by decide, htracks, hstrays,
    (hop (.persist ⟨1⟩) fun _ h => by simp at h).2 hstrays⟩

/-- An impostor is tracked once it is persisted, and the next flush fails for it, though the
connection would have taken everything. -/
theorem tracked_impostor :
    build userOptions mingled.heap {} = .ok mingled ∧ userOptions.Owned ∧
    Reached Operation.Proper mingled ((Operation.persist ⟨1⟩).after mingled) ∧
    (∃ t, ((Operation.persist ⟨1⟩).after mingled).work.tracked.get? ⟨1⟩ = some t ∧
      t.metadata.className = "User") ∧
    ((Operation.persist ⟨1⟩).after mingled).heap.typeOf ⟨1⟩ = impostor ∧
    ¬ userOptions.Registers impostor ∧
    (∃ e t, flush.run ((Operation.persist ⟨1⟩).after mingled) = (.error e, t) ∧ e.IsForeign) ∧
    ∀ cause, Connection.Fails Sample.Scripted cause → ¬ cause.IsForeign := by
  refine ⟨build_mingled, owned_userOptions, ?_, ⟨_, rfl, by decide⟩, rfl, not_registers_impostor,
    ⟨_, _, rfl, by decide⟩, ?_⟩
  · exact Reached.start.run ((Runs.done _).operation (.persist ⟨1⟩) fun _ h => by simp at h)
  · intro cause h
    cases h with
    | begin h | lastInsertId h | commit h => cases h
    | @update _ _ c _ h =>
      have hcause := (Prod.mk.inj h).1
      split at hcause
      · rw [← Except.error.inj hcause]
        exact Error.not_isForeign_validation _
      · cases hcause

end Persistence.Manager
