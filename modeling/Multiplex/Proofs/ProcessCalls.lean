import Multiplex.Proofs.Course
import Multiplex.Rpc.Deployment.Serving

/-!
Whatever a process does, on either side of a call, its connection only sees calls: it keeps what it
was set up with, and opens streams but never forgets that it did.
-/

namespace Multiplex

namespace Connection

/-- What calls can make of a connection, whichever they are. -/
def Drifts : Connection → Connection → Prop := Relation.ReflTransGen (Evolves False)

variable {c c' c'' : Connection} {ready : Prop}

theorem Drifts.refl (c : Connection) : Drifts c c := Relation.ReflTransGen.refl

theorem Drifts.trans (h : Drifts c c') (h' : Drifts c' c'') : Drifts c c'' :=
  Relation.ReflTransGen.trans h h'

theorem Evolves.drifts (h : Evolves ready c c') : Drifts c c' := .single (h.mono False.elim)

theorem Evolves.later (h : Evolves ready c c') : c.Later c' := by
  have hdeeds : Deeds False c c' := (h.mono fun hr => hr.2.elim).deeds
  exact hdeeds.later

theorem Drifts.later (h : Drifts c c') : c.Later c' := by
  induction h with
  | refl => exact .refl c
  | tail _ he ih => exact ih.trans he.later

theorem Drifts.fades (h : Drifts c c') : c.Fades c' := by
  induction h with
  | refl => exact .refl c
  | tail _ he ih => exact ih.trans he.fades

theorem Strides.drifts (h : Strides c c') : Drifts c c' := by
  induction h with
  | refl => exact .refl c
  | tail _ he ih => exact ih.trans he.drifts

theorem drifts_call (c : Connection) (cancelled : Bool) (k : Call) :
    Drifts c (c.call cancelled k).2 := (evolves_call c cancelled k).drifts

theorem drifts_wake {cancelled : Bool} {w : Suspended} {r : Outcome × Connection}
    (h : c.wake cancelled w = some r) : Drifts c r.2 := by
  unfold wake at h
  split at h
  · cases h
    exact (evolves_resume c cancelled w.wait).drifts
  · split at h
    · cases h
      exact ((moves_cancel c w.wait).evolves : Evolves False _ _).drifts
    · cases h

theorem drifts_abandonReads (c : Connection) (i : Nat) : Drifts c (c.abandonReads i) :=
  ((moves_abandonReads c i).evolves : Evolves False _ _).drifts

theorem drifts_disposeStream (c : Connection) (i : Nat) : Drifts c (c.disposeStream i) :=
  ((moves_disposeStream c i).evolves : Evolves False _ _).drifts

theorem drifts_reset (c : Connection) (i : Nat) (code : UInt64) : Drifts c (c.reset i code) :=
  ((moves_reset c i code).evolves : Evolves False _ _).drifts

theorem drifts_foldl {f : Connection → Nat → Connection} (hf : ∀ c i, Drifts c (f c i))
    (streams : List Nat) (c : Connection) : Drifts c (streams.foldl f c) := by
  induction streams generalizing c with
  | nil => exact .refl c
  | cons i streams ih => exact (hf c i).trans (ih (f c i))

end Connection

namespace Rpc

open Connection

variable {α : Type} (m : Moment) {c : Connection} {s : Scene}

theorem Scene.drifts_complete (h : c.Drifts s.connection) : c.Drifts s.complete.connection :=
  h.trans (drifts_foldl drifts_abandonReads _ _)

theorem Scene.drifts_release (h : c.Drifts s.connection) (r : Released) :
    c.Drifts (s.release r).connection :=
  h.trans (drifts_foldl (fun c i => (drifts_abandonReads c i).trans (drifts_disposeStream _ i)) _ _)

theorem Process.drifts_run (p : Process α) (h : c.Drifts s.connection) :
    c.Drifts (p.run m s).2.connection := by
  induction p generalizing s with
  | done a => exact h
  | note e next ih => exact ih h
  | guard e next ih => exact ih h
  | unguard next ih => exact ih h
  | complete next ih => exact ih (Scene.drifts_complete h)
  | pause w next ih =>
    unfold run
    split
    · exact ih h
    · exact h
  | call k next ih =>
    have hc := h.trans (drifts_call s.connection m.givenUp (k.on s.stream))
    unfold run
    split <;> rename_i heq <;> rw [heq] at hc
    · exact ih _ hc
    · exact hc
  | chunk max next ih =>
    unfold run
    split
    · rename_i i hcontent
      have hc := h.trans (drifts_call s.connection m.givenUp (.read i (.chunk max)))
      split <;> rename_i heq <;> rw [heq] at hc
      · exact ih _ hc
      · exact hc
    · exact ih _ h
    · exact ih _ h
  | all next ih =>
    unfold run
    split
    · rename_i i hcontent
      have hc := h.trans (drifts_call s.connection m.givenUp (.read i (.toEnd [])))
      split <;> rename_i heq <;> rw [heq] at hc
      · split
        · exact ih _ (Scene.drifts_complete hc)
        · exact ih _ hc
      · exact hc
    · exact ih _ (Scene.drifts_complete h)
    · exact ih _ (Scene.drifts_complete h)

theorem Halted.drifts_resume {work : Halted α} {r : Halted α × Scene} (h : c.Drifts s.connection)
    (hr : work.resume m s = some r) : c.Drifts r.2.connection := by
  cases work with
  | done a => cases hr
  | calling w next =>
    unfold resume at hr
    dsimp only at hr
    split at hr
    · cases hr
    · rename_i x c' hw
      cases hr
      exact Process.drifts_run m _ (h.trans (drifts_wake hw))
    · rename_i w' c' hw
      cases hr
      exact h.trans (drifts_wake hw)
  | paused hold next =>
    unfold resume at hr
    dsimp only at hr
    split at hr
    · cases hr
      exact Process.drifts_run m next h
    · cases hr

namespace Dispatch

variable (t : Terms) (peer : String)

theorem drifts_finish (h : c.Drifts s.connection) : c.Drifts (finish s).2.connection :=
  (Scene.drifts_complete h).trans (drifts_disposeStream _ _)

theorem drifts_afterResponding (work : Halted (Except Error Unit)) (h : c.Drifts s.connection) :
    c.Drifts (afterResponding work s).2.connection := by
  unfold afterResponding
  split
  · exact drifts_finish h
  · exact drifts_finish (h.trans (drifts_reset _ _ _))
  · exact h
  · exact h

theorem drifts_answer (oneway : Bool) (reply : Reply) (h : c.Drifts s.connection) :
    c.Drifts (answer t m oneway reply s).2.connection := by
  unfold answer
  split
  · exact drifts_finish h
  · exact drifts_afterResponding _ (Process.drifts_run m _ h)

theorem drifts_afterServing (work : Halted Reply) (oneway : Bool) (deadline : Option Nat)
    (h : c.Drifts s.connection) :
    c.Drifts (afterServing t m work oneway deadline s).2.connection := by
  unfold afterServing
  split
  · exact drifts_answer m t _ _ (Scene.drifts_complete h)
  · exact h
  · exact h

theorem drifts_expire (work : Halted Reply) (oneway : Bool) (h : c.Drifts s.connection) :
    c.Drifts (expire t m work oneway s).2.connection := by
  have hresume : c.Drifts
      ((work.resume { m with givenUp := true } s).getD (work, s)).2.connection := by
    cases hr : work.resume { m with givenUp := true } s with
    | none => exact h
    | some r => exact Halted.drifts_resume _ h hr
  unfold expire
  refine drifts_answer m t _ _ ?_
  split
  · exact Scene.drifts_complete hresume
  · exact hresume
  · exact hresume

theorem drifts_afterHeading (work : Halted (Except Error RequestHeader))
    (h : c.Drifts s.connection) : c.Drifts (afterHeading t m peer work s).2.connection := by
  unfold afterHeading
  split
  · exact drifts_afterServing m t _ _ _ (Process.drifts_run m _ h)
  · exact drifts_finish (h.trans (drifts_reset _ _ _))
  · exact h
  · exact h

theorem drifts_start (h : c.Drifts s.connection) : c.Drifts (start t m peer s).2.connection :=
  drifts_afterHeading m t peer _ (Process.drifts_run m _ h)

theorem drifts_resume {d : Dispatch} {r : Dispatch × Scene} (h : c.Drifts s.connection)
    (hr : d.resume t m peer s = some r) : c.Drifts r.2.connection := by
  cases d with
  | heading work =>
    obtain ⟨x,hx,rfl⟩ := Option.map_eq_some_iff.mp hr
    exact drifts_afterHeading m t peer _ (Halted.drifts_resume m h hx)
  | serving work oneway deadline =>
    unfold resume at hr
    dsimp only at hr
    split at hr
    · rename_i work' s' _ hx
      cases hr
      have hresume := Halted.drifts_resume m h hx
      exact drifts_afterServing m t _ _ _ hresume
    · split at hr
      · cases hr
        exact drifts_expire m t work oneway h
      · cases hr
    · cases hr
  | responding work =>
    obtain ⟨x,hx,rfl⟩ := Option.map_eq_some_iff.mp hr
    exact drifts_afterResponding _ (Halted.drifts_resume m h hx)
  | _ => cases hr

end Dispatch

namespace Invocation

theorem drifts_conclude (i : Invocation) (outcome : Except Error (Option ResponseHeader))
    (h : c.Drifts s.connection) : c.Drifts (i.conclude outcome s).2.connection := by
  unfold conclude
  split
  · exact Scene.drifts_release h _
  · exact h.trans (drifts_disposeStream _ _)
  · exact h.trans (drifts_disposeStream _ _)

theorem drifts_afterWork (i : Invocation) (h : c.Drifts s.connection) :
    c.Drifts (i.afterWork s).2.connection := by
  unfold afterWork
  split
  · exact drifts_conclude i _ h
  · exact h

theorem drifts_start (max : Nat) (r : Request) (h : c.Drifts s.connection) :
    c.Drifts (start max m r s).2.connection := by
  unfold start
  dsimp only
  split
  · exact h
  · split
    · exact h
    · split
      · exact h
      · rename_i stream c' hc
        have hcreate : s.connection.Drifts c' :=
          ((Station.moves_createStream hc).evolves : Evolves False _ _).drifts
        exact drifts_afterWork _ (Process.drifts_run m _ (h.trans hcreate))

theorem drifts_resume {i : Invocation} {r : Invoked × Scene} (h : c.Drifts s.connection)
    (hr : i.resume m s = some r) : c.Drifts r.2.connection := by
  unfold resume at hr
  dsimp only at hr
  split at hr
  · rename_i work s' _ hx
    cases hr
    have hresume := Halted.drifts_resume m (s := { s with stream := i.stream }) h hx
    exact drifts_afterWork _ hresume
  · split at hr
    · cases hr
      exact drifts_conclude i _ (h.trans (drifts_reset _ _ _))
    · cases hr
  · cases hr

end Invocation

namespace Reading

theorem drifts_afterWork (r : Reading) (before : Payload) (h : c.Drifts s.connection) :
    c.Drifts (r.afterWork before s).2.connection := by
  unfold afterWork
  split
  · exact h
  · dsimp only
    split
    · exact h.trans (drifts_disposeStream _ _)
    · exact h

theorem drifts_start (goal : Option Nat) (request : Request) (response : Response)
    (h : c.Drifts s.connection) : c.Drifts (start goal m request response s).2.connection := by
  unfold start
  split
  · exact h
  · exact drifts_afterWork _ _ (Process.drifts_run m _ h)

theorem drifts_resume {r : Reading} {x : ReadState × Scene} (h : c.Drifts s.connection)
    (hr : r.resume m s = some x) : c.Drifts x.2.connection := by
  unfold resume at hr
  split at hr
  · cases hr
  · rename_i response hresponse
    split at hr
    · rename_i work s' hx
      cases hr
      have hresume := Halted.drifts_resume m (s := { s with payload := response.payload }) h hx
      exact drifts_afterWork _ _ hresume
    · cases hr

end Reading

theorem drifts_callOrWake {k : Call} {z : Option Suspended}
    {r : Outcome × Connection} (h : Deployment.callOrWake c k z = some r) : c.Drifts r.2 := by
  cases z with
  | none =>
    cases h
    exact drifts_call c false k
  | some z => exact drifts_wake h

end Rpc

end Multiplex
