import Persistence.Proofs.Steadiness

/-!
Actions that make calls for rows and none for transactions, whatever the state and however they
end. All operations but a flush are of this kind.
-/

namespace Persistence.Manager

variable {σ α : Type}

theorem post_onSession {m : Manager σ} {Q : α → Manager σ → Prop} {E : Error → Manager σ → Prop}
    (a : SessionM σ α) : (onSession a).Post Q E m ↔
      a.Post (fun x s => Q x { m with session := s }) (fun e s => E e { m with session := s })
        m.session := by
  rw [onSession, inEnvironment, Action.post_onPart, Environment.onSession, Action.post_onPart]

def Working (a : ManagerM (Recorded σ) α) : Prop := ∀ m,
  a.Post (fun _ t => m.session.Works t.session) (fun _ t => m.session.Works t.session) m

def Worked (m t : Manager (Recorded σ)) : Prop := m.session.Works t.session

instance : Std.Refl (Worked (σ := σ)) := ⟨fun m => .refl m.session⟩

instance : Trans (Worked (σ := σ)) Worked Worked := ⟨Session.Works.trans⟩

variable [Connection σ]

theorem steady_worked : Steady (Worked (σ := σ)) where
  of_session_eq {m t} hsession _ := by
    rw [Worked, hsession]
    exact .refl m.session
  query sql parameters := by
    refine Action.Within.iff_post.mpr fun m => ?_
    have hcalls := Recorded.post_calls (.query sql parameters) (Connection.query sql parameters)
      m.session.connection
    rw [post_onSession, Session.post_query]
    refine hcalls.mono (fun _ c hc => ?_) fun _ c hc => ?_
    · exact Session.works_of_calls ⟨rfl, rfl⟩ hc rfl
    · exact Session.works_of_calls ⟨rfl, rfl⟩ hc rfl

theorem Operation.working {op : Operation} (h : op ≠ .flush) :
    Working (op.ask : ManagerM (Recorded σ) op.Answer) :=
  Action.Within.iff_post.mp (steady_worked.ask h)

end Persistence.Manager
