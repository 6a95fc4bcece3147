import Persistence.Action

/-!
Postconditions of actions. `a.Post Q E s` says that running `a` in the state `s` ends with an
answer and a state for which `Q` holds, or with an error and a state for which `E` holds. There is
one rule for each way of putting actions together, so a postcondition of a whole action is computed
from those of its parts.
-/

namespace Persistence.Action

variable {S T α β : Type} {Q Q' : α → S → Prop} {E E' : Error → S → Prop} {s : S}

def Post (a : Action S α) (Q : α → S → Prop) (E : Error → S → Prop) (s : S) : Prop :=
  match a.run s with
  | (.ok x, t) => Q x t
  | (.error e, t) => E e t

theorem post_of_run_ok {a : Action S α} {x : α} {t : S} (h : a.run s = (.ok x, t)) :
    a.Post Q E s ↔ Q x t := by
  rw [Post, h]

theorem post_of_run_error {a : Action S α} {e : Error} {t : S} (h : a.run s = (.error e, t)) :
    a.Post Q E s ↔ E e t := by
  rw [Post, h]

theorem post_iff {a : Action S α} : a.Post Q E s ↔
    (∀ x t, a.run s = (.ok x, t) → Q x t) ∧ ∀ e t, a.run s = (.error e, t) → E e t := by
  unfold Post
  constructor
  · intro h
    refine ⟨fun x t hrun => ?_, fun e t hrun => ?_⟩
    · rwa [hrun] at h
    · rwa [hrun] at h
  · intro h
    split
    · exact h.1 _ _ ‹_›
    · exact h.2 _ _ ‹_›

theorem Post.mono {a : Action S α} (h : a.Post Q E s) (hQ : ∀ x t, Q x t → Q' x t)
    (hE : ∀ e t, E e t → E' e t) : a.Post Q' E' s := by
  match h' : a.run s with
  | (.ok x, t) =>
    rw [post_of_run_ok h'] at h ⊢
    exact hQ x t h
  | (.error e, t) =>
    rw [post_of_run_error h'] at h ⊢
    exact hE e t h

theorem post_of_forall (a : Action S α) (hQ : ∀ x t, Q x t) (hE : ∀ e t, E e t) :
    a.Post Q E s := by
  rw [Post]
  split
  · exact hQ _ _
  · exact hE _ _

theorem Post.and {a : Action S α} (h : a.Post Q E s) (h' : a.Post Q' E' s) :
    a.Post (fun x t => Q x t ∧ Q' x t) (fun e t => E e t ∧ E' e t) s := by
  unfold Post at *
  split <;> simp_all

@[simp] theorem post_pure (x : α) : (pure x : Action S α).Post Q E s ↔ Q x s := Iff.rfl

@[simp] theorem post_throw (e : Error) : (throw e : Action S α).Post Q E s ↔ E e s := Iff.rfl

@[simp] theorem post_liftExcept (x : Except Error α) :
    (liftM x : Action S α).Post Q E s ↔ (∀ y, x = .ok y → Q y s) ∧ ∀ e, x = .error e → E e s := by
  match x with
  | .ok y =>
    change Q y s ↔ _
    simp
  | .error e =>
    change E e s ↔ _
    simp

@[simp] theorem post_get {Q : S → S → Prop} : (get : Action S S).Post Q E s ↔ Q s s := Iff.rfl

@[simp] theorem post_set {Q : PUnit → S → Prop} (t : S) :
    (set t : Action S PUnit).Post Q E s ↔ Q ⟨⟩ t := Iff.rfl

@[simp] theorem post_modify {Q : PUnit → S → Prop} (f : S → S) :
    (modify f : Action S PUnit).Post Q E s ↔ Q ⟨⟩ (f s) := Iff.rfl

theorem run_bind (a : Action S α) (f : α → Action S β) (s : S) : (a >>= f).run s =
    match a.run s with
    | (.ok x, t) => (f x).run t
    | (.error e, t) => (.error e, t) := by
  change ExceptT.bindCont f (a.run s).1 (a.run s).2 = _
  match a.run s with
  | (.ok x, t) => rfl
  | (.error e, t) => rfl

theorem run_get_bind (f : S → Action S α) : (get >>= f).run s = (f s).run s := rfl

theorem run_bind_of_ok {a : Action S α} {x : α} {t : S} (h : a.run s = (.ok x, t))
    (f : α → Action S β) : (a >>= f).run s = (f x).run t := by
  rw [run_bind, h]

@[simp] theorem post_bind {Q : β → S → Prop} (a : Action S α) (f : α → Action S β) :
    (a >>= f).Post Q E s ↔ a.Post (fun x t => (f x).Post Q E t) E s := by
  unfold Post
  rw [run_bind]
  match a.run s with
  | (.ok x, t) => rfl
  | (.error e, t) => rfl

@[simp] theorem post_map {Q : β → S → Prop} (f : α → β) (a : Action S α) :
    (f <$> a).Post Q E s ↔ a.Post (fun x t => Q (f x) t) E s := by
  rw [map_eq_pure_bind, post_bind]
  rfl

@[simp] theorem post_discard {Q : PUnit → S → Prop} (a : Action S α) :
    (discard a).Post Q E s ↔ a.Post (fun _ t => Q ⟨⟩ t) E s := by
  change ((fun _ => PUnit.unit) <$> a : Action S PUnit).Post Q E s ↔ _
  rw [post_map]

@[simp] theorem post_attempt {Q : Except Error α → S → Prop} (a : Action S α) :
    a.attempt.Post Q E s ↔ a.Post (fun x t => Q (.ok x) t) (fun e t => Q (.error e) t) s := by
  match h : a.run s with
  | (.ok x, t) =>
    rw [post_of_run_ok h]
    exact post_of_run_ok (by change (Except.ok (a.run s).1, (a.run s).2) = _; rw [h])
  | (.error e, t) =>
    rw [post_of_run_error h]
    exact post_of_run_ok (by change (Except.ok (a.run s).1, (a.run s).2) = _; rw [h])

@[simp] theorem post_explain (p : Problem) (a : Action S α) :
    (a.explain p).Post Q E s ↔ a.Post Q (fun e t => E (e.context p) t) s := by
  have h : (a.explain p).run s = ((a.run s).1.mapError fun e => e.context p, (a.run s).2) := rfl
  unfold Post
  rw [h]
  match a.run s with
  | (.ok x, t) => rfl
  | (.error e, t) => rfl

@[simp] theorem post_onPart (read : S → T) (write : S → T → S) (a : Action T α) :
    (a.onPart read write).Post Q E s ↔
      a.Post (fun x t => Q x (write s t)) (fun e t => E e (write s t)) (read s) := by
  have h : (a.onPart read write).run s = ((a.run (read s)).1, write s (a.run (read s)).2) := rfl
  unfold Post
  rw [h]
  match a.run (read s) with
  | (.ok x, t) => rfl
  | (.error e, t) => rfl

@[simp] theorem post_ite {p : Prop} [Decidable p] (a b : Action S α) :
    (if p then a else b).Post Q E s ↔ (p → a.Post Q E s) ∧ (¬ p → b.Post Q E s) := by
  split <;> simp_all

@[simp] theorem liftM_ok (x : α) : (liftM (Except.ok x : Except Error α) : Action S α) = pure x := rfl

@[simp] theorem liftM_error (e : Error) :
    (liftM (Except.error e : Except Error α) : Action S α) = throw e := rfl

@[simp] theorem throw_bind (e : Error) (f : α → Action S β) : (throw e : Action S α) >>= f = throw e :=
  rfl

@[simp] theorem map_throw (f : α → β) (e : Error) : f <$> (throw e : Action S α) = throw e := rfl

@[simp] theorem get_bind_const (a : Action S α) : (get >>= fun _ => a) = a := rfl

theorem Post.of_run_ok {a : Action S α} {x : α} {t : S} (h : a.Post Q E s)
    (hrun : a.run s = (.ok x, t)) : Q x t :=
  (post_of_run_ok hrun).mp h

theorem Post.of_run_error {a : Action S α} {e : Error} {t : S} (h : a.Post Q E s)
    (hrun : a.run s = (.error e, t)) : E e t :=
  (post_of_run_error hrun).mp h

theorem Post.run_eq {a : Action S α} {x : α} {t : S}
    (h : a.Post (fun y u => y = x ∧ u = t) (fun _ _ => False) s) : a.run s = (.ok x, t) := by
  unfold Post at h
  split at h
  · rename_i hrun
    obtain ⟨rfl, rfl⟩ := h
    exact hrun
  · exact h.elim

theorem run_eq_of_fst {a : Action S α} {ending : Except Error α} (h : (a.run s).1 = ending) :
    a.run s = (ending, (a.run s).2) :=
  Prod.ext h rfl

theorem post_iff_run {P : S → Prop} {a : Action S α} :
    a.Post (fun _ => P) (fun _ => P) s ↔ P (a.run s).2 := by
  unfold Post
  split <;> rename_i h <;> rw [h]

theorem state_discard (a : Action S α) (s : S) : ((discard a).run s).2 = (a.run s).2 :=
  post_iff_run (P := fun t => t = (a.run s).2) |>.mp <| (post_discard a).mpr <|
    post_iff_run (P := fun t => t = (a.run s).2) |>.mpr rfl

theorem mapM_map_comp (f : α → β) (g : T → Action S α) (xs : List T) :
    (xs.mapM fun x => f <$> g x) = List.map f <$> xs.mapM g := by
  induction xs with
  | nil => simp
  | cons x xs ih => simp [List.mapM_cons, ih]

theorem forM_eq_mapM (g : T → Action S Unit) (xs : List T) :
    xs.forM g = (fun _ => ()) <$> xs.mapM g := by
  change forM xs g = _
  induction xs with
  | nil => simp
  | cons x xs ih => simp [List.mapM_cons, List.forM_cons, ih]

theorem post_forM_of_forall {f : T → Action S Unit} {P : Error → Prop}
    (hf : ∀ x s, (f x).Post (fun _ _ => True) (fun e _ => P e) s) (xs : List T) (s : S) :
    (xs.forM f).Post (fun _ _ => True) (fun e _ => P e) s := by
  change (forM xs f).Post _ _ s
  induction xs generalizing s with
  | nil => trivial
  | cons x xs ih =>
    rw [List.forM_cons, post_bind]
    exact (hf x s).mono (fun _ t _ => ih t) fun _ _ he => he

theorem run_mapM_concat {f : T → Action S α} {xs : List T} {x : T} {ys : List α} {y : α} {t u : S}
    (h : (xs.mapM f).run s = (.ok ys, t)) (hx : (f x).run t = (.ok y, u)) :
    ((xs ++ [x]).mapM f).run s = (.ok (ys ++ [y]), u) := by
  rw [List.mapM_append, run_bind_of_ok h, List.mapM_cons, List.mapM_nil, bind_assoc,
    run_bind_of_ok hx]
  rfl

/-- A loop keeps an invariant of what it has been through, what it has answered and the state. -/
theorem post_mapM {f : β → Action S α} {xs : List β} {J : List β → List α → S → Prop}
    (start : J [] [] s)
    (step : ∀ before x rest ys t, xs = before ++ x :: rest → J before ys t →
      (f x).Post (fun y t => J (before ++ [x]) (ys ++ [y]) t) E t) :
    (xs.mapM f).Post (J xs) E s := by
  suffices h : ∀ (before rest : List β) (ys : List α) (t : S), xs = before ++ rest → J before ys t →
      (rest.mapM f).Post (fun zs t => J xs (ys ++ zs) t) E t from h [] xs [] s rfl start
  intro before rest
  induction rest generalizing before with
  | nil =>
    intro ys t hxs hJ
    rw [List.append_nil] at hxs
    subst hxs
    simpa using hJ
  | cons x rest ih =>
    intro ys t hxs hJ
    rw [List.mapM_cons, post_bind]
    refine (step before x rest ys t hxs hJ).mono (fun y u hy => ?_) (fun e u he => he)
    rw [post_bind]
    have hrest := ih (before ++ [x]) (ys ++ [y]) u (by rw [hxs, List.append_assoc]; rfl) hy
    refine hrest.mono (fun zs v hz => ?_) (fun e v he => he)
    rw [List.append_assoc] at hz
    exact hz

def Within (R : S → S → Prop) (a : Action S α) : Prop := ∀ s, R s (a.run s).2

namespace Within

variable {R : S → S → Prop}

theorem iff_post {a : Action S α} : a.Within R ↔ ∀ s, a.Post (fun _ => R s) (fun _ => R s) s :=
  forall_congr' fun _ => post_iff_run.symm

theorem bind [Trans R R R] {a : Action S α} {f : α → Action S β} (ha : a.Within R)
    (hf : ∀ x, (f x).Within R) : (a >>= f).Within R := by
  intro s
  have h := ha s
  rw [run_bind]
  split
  · rename_i x t hrun
    rw [hrun] at h
    exact Trans.trans h (hf x t)
  · rename_i e t hrun
    rwa [hrun] at h

theorem map {a : Action S α} (ha : a.Within R) (f : α → β) : (f <$> a).Within R :=
  iff_post.mpr fun s => post_map f a |>.mpr (iff_post.mp ha s)

theorem discard {a : Action S α} (ha : a.Within R) : (discard a).Within R :=
  iff_post.mpr fun s => post_discard a |>.mpr (iff_post.mp ha s)

theorem explain {a : Action S α} (ha : a.Within R) (p : Problem) : (a.explain p).Within R :=
  iff_post.mpr fun s => post_explain p a |>.mpr (iff_post.mp ha s)

theorem ite {p : Prop} [Decidable p] {a b : Action S α} (ha : a.Within R) (hb : b.Within R) :
    (if p then a else b).Within R := by
  split
  · exact ha
  · exact hb

theorem onPart {R' : T → T → Prop} {a : Action T α} (ha : a.Within R') {read : S → T}
    {write : S → T → S} (hwrite : ∀ s t, R' (read s) t → R s (write s t)) :
    (a.onPart read write).Within R := fun s => hwrite s _ (ha (read s))

variable [Std.Refl R]

theorem pure (x : α) : (pure x : Action S α).Within R := fun s => Std.Refl.refl s

theorem throw (e : Error) : (throw e : Action S α).Within R := fun s => Std.Refl.refl s

theorem get : (get : Action S S).Within R := fun s => Std.Refl.refl s

theorem liftExcept (x : Except Error α) : (liftM x : Action S α).Within R := by
  cases x with
  | ok x => exact pure x
  | error e => exact throw e

theorem forM [Trans R R R] {f : β → Action S PUnit} (hf : ∀ x, (f x).Within R) (xs : List β) :
    (xs.forM f).Within R := by
  change (ForM.forM xs f).Within R
  induction xs with
  | nil => exact pure PUnit.unit
  | cons x xs ih =>
    rw [List.forM_cons]
    exact (hf x).bind fun _ => ih

end Within

end Persistence.Action
