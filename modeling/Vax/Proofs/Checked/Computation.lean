import Vax.Machine.Step
/-!
# Computations whose arithmetic can fail

A checked computation is one of the machine that gives nothing, not even a
fault, where its arithmetic fails.  It follows another computation when its
arithmetic never fails and it does the same.
-/

namespace Vax

/-- A computation of the machine that gives nothing where its arithmetic fails. -/
abbrev Checked (α : Type) : Type :=
  ExceptT Fault.Cause (StateT Machine Option) α

/-- A fetch that gives nothing where its arithmetic fails. -/
abbrev CheckedFetch (α : Type) : Type :=
  StateT UInt32 (ExceptT OutOfRange Option) α

namespace Checked

section Lift

variable {α β : Type}

def outcome : EStateM.Result Fault.Cause Machine α → Except Fault.Cause α × Machine
  | .ok a after => (.ok a, after)
  | .error cause after => (.error cause, after)

/-- The computation itself, which has no arithmetic that could fail. -/
def ofExec (x : Exec α) : Checked α :=
  ExceptT.mk fun m => some (outcome (x.run m))

/-- The fetch itself, which has no arithmetic that could fail. -/
def ofFetch (x : Fetch α) : CheckedFetch α := fun position =>
  ExceptT.mk (some (x.run position))

instance : MonadLift Exec Checked where
  monadLift := ofExec

instance : MonadLift Fetch CheckedFetch where
  monadLift := ofFetch

section Run

variable {x : Exec α} {m after : Machine}

theorem bind_ok {a : α} (h : x.run m = .ok a after) (f : α → Checked β) :
    (ofExec x >>= f) m = f a after := by
  simp only [bind, ExceptT.bind, ExceptT.mk, StateT.bind, ofExec, h]
  rfl

theorem bind_error {cause : Fault.Cause} (h : x.run m = .error cause after) (f : α → Checked β) :
    (ofExec x >>= f) m = some (.error cause, after) := by
  simp only [bind, ExceptT.bind, ExceptT.mk, StateT.bind, ofExec, h]
  rfl

end Run

theorem ofExec_bind (x : Exec α) (f : α → Exec β) :
    ofExec (x >>= f) = ofExec x >>= fun a => ofExec (f a) := by
  funext m
  change some (outcome ((x >>= f).run m)) = _
  rw [EStateM.run_bind]
  cases hrun : x.run m with
  | ok a after => rw [bind_ok hrun]; rfl
  | error cause after => rw [bind_error hrun]; rfl

theorem ofFetch_bind (x : Fetch α) (f : α → Fetch β) :
    ofFetch (x >>= f) = ofFetch x >>= fun a => ofFetch (f a) := by
  funext position
  change ExceptT.mk (some ((x >>= f).run position)) =
    ExceptT.mk (some (x.run position)) >>= fun result => ofFetch (f result.1) result.2
  rw [StateT.run_bind]
  cases x.run position <;> rfl

instance : LawfulMonadLift Exec Checked where
  monadLift_pure _ := rfl
  monadLift_bind := ofExec_bind

instance : LawfulMonadLift Fetch CheckedFetch where
  monadLift_pure _ := rfl
  monadLift_bind := ofFetch_bind

end Lift

section Follows

variable {m n : Type → Type} [Monad n] [MonadLiftT m n] {α β γ δ : Type}

/-- The checked computation does what the other one does, and gives `e a` where
that gives `a`. -/
def Follows (e : α → β) (c : n β) (x : m α) : Prop :=
  c = e <$> (liftM x : n α)

theorem Follows.ite {e : α → β} {p q : Prop} [Decidable p] [Decidable q] {c c' : n β} {x x' : m α}
    (hpq : p ↔ q) (h : Follows e c x) (h' : Follows e c' x') :
    Follows e (if p then c else c') (if q then x else x') := by
  by_cases hp : p
  · rw [if_pos hp, if_pos (hpq.1 hp)]
    exact h
  · rw [if_neg hp, if_neg fun hq => hp (hpq.2 hq)]
    exact h'

variable [LawfulMonad n]

theorem Follows.eq {c : n α} {x : m α} (h : Follows id c x) : c = liftM x :=
  h.trans (id_map _)

theorem follows_lift (x : m α) : Follows id (liftM x : n α) x :=
  (id_map _).symm

theorem follows_compute [MonadLiftT Option n] [LawfulMonadLiftT Option n] [Monad m]
    [LawfulMonadLiftT m n] {e : α → β} {o : Option β} {a : α} (h : o = some (e a)) :
    Follows e (liftM o : n β) (pure a : m α) := by
  have hpure : (liftM (some (e a)) : n β) = pure (e a) := liftM_pure (e a)
  rw [Follows, liftM_pure, map_pure, h, hpure]

/-- Arithmetic that succeeds leaves no trace. -/
theorem Follows.compute [MonadLiftT Option n] [LawfulMonadLiftT Option n] {e : γ → δ}
    {o : Option β} {b : β} {f : β → n δ} {x : m γ} (h : o = some b) (hf : Follows e (f b) x) :
    Follows e (liftM o >>= f) x := by
  have hpure : (liftM (some b) : n β) = pure b := liftM_pure b
  rwa [h, hpure, pure_bind]

variable [Monad m] [LawfulMonadLiftT m n]

theorem follows_pure (e : α → β) (a : α) : Follows e (pure (e a) : n β) (pure a : m α) := by
  rw [Follows, liftM_pure, map_pure]

theorem Follows.bind {e : α → β} {e' : γ → δ} {c : n β} {x : m α} {f : β → n δ} {g : α → m γ}
    (h : Follows e c x) (hf : ∀ a, Follows e' (f (e a)) (g a)) :
    Follows e' (c >>= f) (x >>= g) := by
  have hg : ∀ a, f (e a) = e' <$> liftM (g a) := hf
  rw [Follows, liftM_bind, map_bind, h, bind_map_left]
  exact bind_congr hg

theorem Follows.map [LawfulMonad m] {c : n α} {x : m α} (h : Follows id c x) (f : α → β) :
    Follows id (f <$> c) (f <$> x) := by
  rw [Follows, id_map, h.eq, liftM_map]

theorem follows_mapM [LawfulMonad m] {f : γ → n α} {g : γ → m α} (h : ∀ a, Follows id (f a) (g a))
    (as : List γ) : Follows id (as.mapM f) (as.mapM g) := by
  induction as with
  | nil => exact follows_pure id _
  | cons a rest ih =>
    rw [List.mapM_cons, List.mapM_cons]
    exact (h a).bind fun _ => ih.bind fun _ => follows_pure id _

end Follows

/-- Only values that the computation can give go on. -/
theorem Follows.bind_of {α β γ δ : Type} {e : α → β} {e' : γ → δ} {c : Checked β} {x : Exec α}
    {f : β → Checked δ} {g : α → Exec γ} {p : α → Prop} (h : Follows e c x)
    (hx : ∀ m a after, x.run m = .ok a after → p a)
    (hf : ∀ a, p a → Follows e' (f (e a)) (g a)) : Follows e' (c >>= f) (x >>= g) := by
  have hc : c >>= f = ofExec x >>= fun a => f (e a) := by
    rw [h]
    exact bind_map_left ..
  rw [Follows, hc, liftM_bind, map_bind]
  funext m
  cases hrun : x.run m with
  | ok a after =>
    have hright := bind_ok hrun fun a => e' <$> ofExec (g a)
    rw [bind_ok hrun]
    exact (congrFun (hf a (hx m a after hrun)) after).trans hright.symm
  | error cause after =>
    have hright := bind_error hrun fun a => e' <$> ofExec (g a)
    rw [bind_error hrun]
    exact hright.symm

end Checked

end Vax
