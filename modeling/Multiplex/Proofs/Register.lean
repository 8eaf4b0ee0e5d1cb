import Multiplex.Proofs.Flushing
import Multiplex.Proofs.Wakeups

/-!
A register of the calls on one end: for each of them, the frames that its stream queued while the
call ran, and its result.
-/

namespace Multiplex

namespace Outcome

def result? : Outcome → Option (Except Failure Answer)
  | .done result => some result
  | .wait _ => none

def wait? : Outcome → Option Wait
  | .done _ => none
  | .wait w => some w

theorem eq_wait {o : Outcome} {w : Wait} (h : o.wait? = some w) : o = .wait w := by
  cases o with
  | done => cases h
  | wait =>
    cases h
    rfl

end Outcome

def Event.calls : Event → Bool
  | .call .. | .look .. | .cancel _ | .drop _ => true
  | _ => false

def Connection.queuedSince (c' c : Connection) (i : Nat) : List Frame :=
  ((c'.queuedFor i).reverse.drop (c.queuedFor i).length).map (·.frame)

/-- A call, and what has come of it. -/
structure Record where
  call : Call
  /-- The frames that its stream queued while it ran, in order. -/
  queued : List Frame := []
  result : Option (Except Failure Answer) := none

/-- The record of a call that has run on the connection `c`. -/
def Record.after (x : Record) (c : Connection) (turn : Outcome × Connection) : Record :=
  { x with
    queued := x.queued ++ x.call.stream?.elim [] (turn.2.queuedSince c)
    result := turn.1.result? }

/-- One end with records of the calls on it. -/
structure Register where
  station : Station
  records : List Record := []
  /-- Of the calls that wait, the places of their records. -/
  holders : List Nat := []

namespace Register

variable {i m n : Nat} {s : Station} {p : Suspended} {t : Step} {out inn : Pipe}
  {records : List Record} {x : Record} {c c' : Connection}

open Station Connection

def enter (r : Register) (station : Station) (x : Record) (wait? : Option Wait) : Register where
  station
  records := r.records ++ [x]
  holders := r.holders ++ (wait?.map fun _ => r.records.length).toList

/-- The call that waits at place `n`, with its record at place `m`, is over or waits anew. -/
def update (r : Register) (station : Station) (n m : Nat) (f : Record → Record)
    (wait? : Option Wait) : Register where
  station
  records := r.records.modify m f
  holders := r.holders.eraseIdx n ++ (wait?.map fun _ => m).toList

/-- Keeps the records while something happens at the end. -/
def step (r : Register) (t : Step) : Register :=
  let c := r.station.connection
  let station := r.station.step t
  match t.event with
  | .call cancelled k =>
    if r.station.barred (.call cancelled k) then { r with station }
    else
      let turn := c.call cancelled k
      r.enter station (Record.after { call := k } c turn) turn.1.wait?
  | .look cancelled n =>
    match r.station.waits[n]?, r.holders[n]? with
    | some p, some m =>
      let turn := c.resume cancelled p.wait
      r.update station n m (·.after c turn) turn.1.wait?
    | _, _ => { r with station }
  | .cancel n =>
    match r.station.waits[n]?, r.holders[n]? with
    | some p, some m =>
      r.update station n m (·.after c (.done (.error .cancelled), c.cancel p.wait)) none
    | _, _ => { r with station }
  | .drop n => { r with station, holders := r.holders.eraseIdx n }
  | _ => { r with station }

def run (r : Register) (steps : List Step) : Register := steps.foldl step r

def fresh (role : Role) (options : Options) (codes : CodeSpace) (channel : Channel) : Register :=
  { station := .fresh role options codes channel }

theorem step_station (r : Register) (t : Step) : (r.step t).station = r.station.step t := by
  unfold step
  split
  · split <;> rfl
  · split <;> rfl
  · split <;> rfl
  · rfl
  · rfl

theorem run_concat (r : Register) (steps : List Step) (t : Step) :
    r.run (steps ++ [t]) = (r.run steps).step t := List.foldl_concat ..

theorem run_station (r : Register) (steps : List Step) :
    (r.run steps).station = r.station.run steps := by
  induction steps using List.reverseRecOn with
  | nil => rfl
  | append_singleton steps t ih => rw [run_concat,step_station,ih,Station.run_concat]

theorem step_serve (s : Station) (h : t.event.calls = true) :
    s.step t = if s.barred t.event then s else s.serve t.event := by
  obtain ⟨out,inn,e⟩ := t
  cases e with
  | call | look | cancel | drop => rfl
  | _ => cases h

theorem step_look {cancelled : Bool} (hp : s.waits[n]? = some p) :
    s.step ⟨out, inn, .look cancelled n⟩ =
      (s.release n).settle (s.connection.resume cancelled p.wait) := by
  rw [step_serve s rfl,if_neg (by exact Bool.false_ne_true),serve,hp]

theorem step_cancel (hp : s.waits[n]? = some p) :
    s.step ⟨out, inn, .cancel n⟩ = (s.release n).withConnection (s.connection.cancel p.wait) := by
  rw [step_serve s rfl,if_neg (by exact Bool.false_ne_true),serve,hp]

def conditions (s : Station) : List Wait := s.waits.map (·.wait)

/-- Whether `Q` holds of every record at its place, with what its call waits for, if it does. -/
structure FollowsAt (Q : Nat → Record → Option Wait → Prop) (r : Register) : Prop where
  paired : r.holders.length = (conditions r.station).length
  single : r.holders.Nodup
  waits : ∀ {n : Nat} {w : Wait} {m : Nat}, (conditions r.station)[n]? = some w →
    r.holders[n]? = some m → ∃ x, r.records[m]? = some x ∧ Q m x (some w)
  ended : ∀ {m : Nat} {x : Record}, r.records[m]? = some x → m ∉ r.holders → Q m x none

abbrev Follows (Q : Record → Option Wait → Prop) : Register → Prop := FollowsAt fun _ => Q

/-- What has to hold for all records to have the property `Q'` after a step, if they had `Q`
before. -/
structure Furthers (r : Register) (t : Step) (Q Q' : Nat → Record → Option Wait → Prop) : Prop where
  keep : ∀ {m : Nat} {x : Record} {wait? : Option Wait}, Q m x wait? → Q' m x wait?
  call : ∀ {cancelled : Bool} {k : Call}, t.event = .call cancelled k →
    let turn := r.station.connection.call cancelled k
    Q' r.records.length (Record.after { call := k } r.station.connection turn) turn.1.wait?
  look : ∀ {cancelled : Bool} {n m : Nat} {x : Record} {w : Wait}, t.event = .look cancelled n →
    Q m x (some w) →
    let turn := r.station.connection.resume cancelled w
    Q' m (x.after r.station.connection turn) turn.1.wait?
  cancel : ∀ {n m : Nat} {x : Record} {w : Wait}, t.event = .cancel n → Q m x (some w) →
    let c := r.station.connection
    Q' m (x.after c (.done (.error .cancelled), c.cancel w)) none
  drop : ∀ {m : Nat} {x : Record} {w : Wait}, Q m x (some w) → Q' m x none

/-- What has to hold of a property of records for all of them to have it. -/
structure Lasting (Q : Record → Option Wait → Prop) : Prop where
  call : ∀ (c : Connection) (cancelled : Bool) (k : Call),
    Q (Record.after { call := k } c (c.call cancelled k)) (c.call cancelled k).1.wait?
  look : ∀ {x : Record} {w : Wait} (c : Connection) (cancelled : Bool), Q x (some w) →
    Q (x.after c (c.resume cancelled w)) (c.resume cancelled w).1.wait?
  cancel : ∀ {x : Record} {w : Wait} (c : Connection), Q x (some w) →
    Q (x.after c (.done (.error .cancelled), c.cancel w)) none
  drop : ∀ {x : Record} {w : Wait}, Q x (some w) → Q x none

theorem Lasting.furthers {Q : Record → Option Wait → Prop} (h : Lasting Q) (r : Register)
    (t : Step) :
    Furthers r t (fun _ => Q) fun _ => Q :=
  ⟨id,fun _ => h.call _ _ _,fun _ => h.look _ _,fun _ => h.cancel _,h.drop⟩

variable {Q Q' : Nat → Record → Option Wait → Prop} {r : Register}

theorem getElem?_eraseIdx_of_some {α : Type} {l : List α} {n k : Nat} {a : α}
    (h : (l.eraseIdx n)[k]? = some a) : l[if k < n then k else k + 1]? = some a := by
  rw [List.getElem?_eraseIdx] at h
  split at h <;> rename_i hk
  · rwa [if_pos hk]
  · rwa [if_neg hk]

namespace FollowsAt

variable {station : Station} {wait? : Option Wait} {x : Record}

theorem bound (h : r.FollowsAt Q) (hm : m ∈ r.holders) : m < r.records.length := by
  obtain ⟨n,hn⟩ := List.mem_iff_getElem?.mp hm
  have hlt := (List.getElem?_eq_some_iff.mp hn).1
  rw [h.paired] at hlt
  obtain ⟨x,hx,-⟩ := h.waits (List.getElem?_eq_getElem hlt) hn
  exact (List.getElem?_eq_some_iff.mp hx).1

theorem at_place (h : r.FollowsAt Q) (hm : r.records[m]? = some x) : ∃ wait?, Q m x wait? := by
  by_cases hmem : m ∈ r.holders
  · obtain ⟨n,hn⟩ := List.mem_iff_getElem?.mp hmem
    have hlt := (List.getElem?_eq_some_iff.mp hn).1
    rw [h.paired] at hlt
    obtain ⟨y,hy,hq⟩ := h.waits (List.getElem?_eq_getElem hlt) hn
    cases hm.symm.trans hy
    exact ⟨_,hq⟩
  · exact ⟨none,h.ended hm hmem⟩

theorem each {Q : Record → Option Wait → Prop} (h : r.Follows Q) (hx : x ∈ r.records) :
    ∃ wait?, Q x wait? := by
  obtain ⟨m,hm⟩ := List.mem_iff_getElem?.mp hx
  exact h.at_place hm

variable (keep : ∀ {m : Nat} {x : Record} {wait? : Option Wait}, Q m x wait? → Q' m x wait?)

include keep

theorem same (h : r.FollowsAt Q) (hw : conditions station = conditions r.station) :
    ({ r with station } : Register).FollowsAt Q' := by
  refine ⟨by rw [hw]; exact h.paired,h.single,fun hn hm => ?_,fun hx hm => keep (h.ended hx hm)⟩
  obtain ⟨x,hx,hq⟩ := h.waits (hw ▸ hn) hm
  exact ⟨x,hx,keep hq⟩

/-- One call ran, with its record at place `m`, and is over or waits behind those of `waiting`. -/
theorem ran (h : r.FollowsAt Q) {waiting : List Wait} {holders : List Nat} {records : List Record}
    (hlen : holders.length = waiting.length) (hsingle : holders.Nodup)
    (hwaits : ∀ {n : Nat} {w k}, waiting[n]? = some w → holders[n]? = some k → ∃ n' : Nat,
      (conditions r.station)[n']? = some w ∧ r.holders[n']? = some k)
    (hgone : m ∉ holders) (hothers : ∀ {k : Nat}, k ≠ m → records[k]? = r.records[k]?)
    (hleft : ∀ {k}, k ≠ m → k ∈ r.holders → k ∈ holders) (hm : records[m]? = some x)
    (hx : Q' m x wait?) (hw : conditions station = waiting ++ wait?.toList) :
    ({ station, records, holders := holders ++ (wait?.map fun _ => m).toList } :
      Register).FollowsAt Q' := by
  refine ⟨?_,?_,fun {n w k} hn hk => ?_,fun {k y} hy hk => ?_⟩
  · cases wait? <;> simp [hw,hlen]
  · cases wait? with
    | none => simpa using hsingle
    | some w =>
      exact List.nodup_append.mpr ⟨hsingle,List.nodup_singleton _,by
        rintro k hk _ hx rfl
        cases List.mem_singleton.mp hx
        exact hgone hk⟩
  · rw [hw] at hn
    by_cases hlt : n < waiting.length
    · rw [List.getElem?_append_left hlt] at hn
      rw [List.getElem?_append_left (hlen ▸ hlt)] at hk
      obtain ⟨n',hn',hk'⟩ := hwaits hn hk
      obtain ⟨y,hy,hq⟩ := h.waits hn' hk'
      rw [hothers fun he => hgone (he ▸ List.mem_of_getElem? hk)]
      exact ⟨y,hy,keep hq⟩
    · rw [List.getElem?_append_right (by omega)] at hn hk
      cases wait? with
      | none => simp at hn
      | some w' =>
        cases List.mem_singleton.mp (List.mem_of_getElem? hn)
        cases List.mem_singleton.mp (List.mem_of_getElem? hk)
        exact ⟨x,hm,hx⟩
  · simp only [List.mem_append,not_or] at hk
    by_cases hne : k = m
    · subst hne
      cases hm.symm.trans hy
      cases wait? with
      | none => exact hx
      | some w => simp at hk
    · rw [hothers hne] at hy
      exact keep (h.ended hy fun hmem => hk.1 (hleft hne hmem))

theorem enter (h : r.FollowsAt Q) (hw : conditions station = conditions r.station ++ wait?.toList)
    (hx : Q' r.records.length x wait?) : (r.enter station x wait?).FollowsAt Q' := by
  refine h.ran keep h.paired h.single (fun hn hk => ⟨_,hn,hk⟩) (fun hm => (h.bound hm).false)
    (fun {k} hne => ?_) (fun _ hk => hk) List.getElem?_concat_length hx hw
  rw [List.getElem?_append]
  split
  · rfl
  · rw [List.getElem?_eq_none (l := r.records) (by omega),List.getElem?_eq_none (by simp; omega)]

theorem update (h : r.FollowsAt Q) {w : Wait} {f : Record → Record}
    (hn : (conditions r.station)[n]? = some w) (hm : r.holders[n]? = some m)
    (hw : conditions station = (conditions r.station).eraseIdx n ++ wait?.toList)
    (hf : ∀ x, Q m x (some w) → Q' m (f x) wait?) :
    (r.update station n m f wait?).FollowsAt Q' := by
  obtain ⟨x,hx,hq⟩ := h.waits hn hm
  have hlt : n < r.holders.length := (List.getElem?_eq_some_iff.mp hm).1
  refine h.ran keep ?_ (h.single.eraseIdx n)
    (fun hk hk' => ⟨_,getElem?_eraseIdx_of_some hk,getElem?_eraseIdx_of_some hk'⟩) ?_
    (fun hne => by simp [Ne.symm hne]) (fun {k} hne hmem => ?_) (by simp [hx]) (hf x hq) hw
  · rw [List.length_eraseIdx_of_lt hlt,List.length_eraseIdx_of_lt (h.paired ▸ hlt),h.paired]
  · -- the record is that of no other call that waits
    rw [List.mem_eraseIdx_iff_getElem?]
    rintro ⟨k,hk,hkm⟩
    exact hk ((List.getElem?_inj hlt h.single).mp (hm.trans hkm.symm)).symm
  · obtain ⟨k,hk⟩ := List.mem_iff_getElem?.mp hmem
    refine List.mem_eraseIdx_iff_getElem?.mpr ⟨k,?_,hk⟩
    rintro rfl
    rw [hm] at hk
    exact hne (Option.some.inj hk).symm

end FollowsAt

theorem conditions_settle (s : Station) (turn : Outcome × Connection) :
    conditions (s.settle turn) = conditions s ++ turn.1.wait?.toList := by
  obtain ⟨_ | _,c⟩ := turn <;> simp [conditions,Station.settle,Outcome.wait?,Station.withConnection]

theorem conditions_release (s : Station) (n : Nat) :
    conditions (s.release n) = (conditions s).eraseIdx n := by
  simp [conditions,Station.release,List.eraseIdx_map]

theorem getElem?_conditions (h : s.waits[n]? = some p) : (conditions s)[n]? = some p.wait := by
  simp [conditions,h]

theorem FollowsAt.holder (h : r.FollowsAt Q) (hp : r.station.waits[n]? = some p) :
    ∃ m, r.holders[n]? = some m := by
  have hlt := (List.getElem?_eq_some_iff.mp (getElem?_conditions hp)).1
  rw [← h.paired] at hlt
  exact ⟨_,List.getElem?_eq_getElem hlt⟩

theorem conditions_step (h : t.event.calls = false) : conditions (s.step t) = conditions s := by
  obtain ⟨out,inn,e⟩ := t
  cases e with
  | call | look | cancel | drop => cases h
  | abandonConnect =>
    simp only [Station.step,Station.act]
    split <;> rfl
  | pull now seen room =>
    simp only [Station.step,Station.act]
    split <;> rfl
  | push room =>
    simp only [Station.step,Station.act]
    split <;> rfl
  | connect | cancelConnect | create =>
    simp only [Station.step,Station.act,Station.serve]
    split
    · rfl
    · split <;> rfl
  | abandonReads | reset | disposeStream | dispose =>
    simp only [Station.step,Station.act,Station.serve]
    split <;> rfl

section Step

variable (h : r.FollowsAt Q) {out inn : Pipe} {cancelled : Bool}

include h

theorem FollowsAt.stepCall {k : Call} (hQ : Furthers r ⟨out, inn, .call cancelled k⟩ Q Q') :
    (r.step ⟨out, inn, .call cancelled k⟩).FollowsAt Q' := by
  have hserve := step_serve r.station (t := ⟨out, inn, .call cancelled k⟩) rfl
  unfold Register.step
  dsimp only at hserve ⊢
  split at hserve <;> rename_i hb
  · rw [if_pos hb,hserve]
    exact h.same hQ.keep rfl
  · rw [if_neg hb,hserve]
    exact h.enter hQ.keep (conditions_settle _ _) (hQ.call rfl)

theorem FollowsAt.stepLook (hQ : Furthers r ⟨out, inn, .look cancelled n⟩ Q Q') :
    (r.step ⟨out, inn, .look cancelled n⟩).FollowsAt Q' := by
  unfold Register.step
  dsimp only
  cases hp : r.station.waits[n]? with
  | none =>
    refine h.same hQ.keep ?_
    rw [step_serve r.station rfl]
    simp [Station.serve,hp]
  | some p =>
    obtain ⟨m,hm⟩ := h.holder hp
    rw [hm,step_look hp]
    refine h.update hQ.keep (getElem?_conditions hp) hm ?_ fun x hx => hQ.look rfl hx
    rw [conditions_settle,conditions_release]

theorem FollowsAt.stepCancel (hQ : Furthers r ⟨out, inn, .cancel n⟩ Q Q') :
    (r.step ⟨out, inn, .cancel n⟩).FollowsAt Q' := by
  unfold Register.step
  dsimp only
  cases hp : r.station.waits[n]? with
  | none =>
    refine h.same hQ.keep ?_
    rw [step_serve r.station rfl]
    simp [Station.serve,hp]
  | some p =>
    obtain ⟨m,hm⟩ := h.holder hp
    rw [hm,step_cancel hp]
    refine h.update hQ.keep (getElem?_conditions hp) hm ?_ fun x hx => hQ.cancel rfl hx
    rw [Option.toList_none,List.append_nil,← conditions_release]
    rfl

theorem FollowsAt.stepDrop (hQ : Furthers r ⟨out, inn, .drop n⟩ Q Q') :
    (r.step ⟨out, inn, .drop n⟩).FollowsAt Q' := by
  have hstep : r.station.step ⟨out, inn, .drop n⟩ = r.station.release n := step_serve r.station rfl
  unfold Register.step
  dsimp only
  rw [hstep]
  cases hp : r.station.waits[n]? with
  | none =>
    have hle : (conditions r.station).length ≤ n := by
      simpa [conditions] using List.getElem?_eq_none_iff.mp hp
    rw [List.eraseIdx_of_length_le (h.paired ▸ hle)]
    refine h.same hQ.keep ?_
    rw [conditions_release,List.eraseIdx_of_length_le hle]
  | some p =>
    obtain ⟨m,hm⟩ := h.holder hp
    have hd : (r.update (r.station.release n) n m id none).FollowsAt Q' := by
      refine h.update hQ.keep (getElem?_conditions hp) hm ?_ fun x hx => hQ.drop hx
      rw [Option.toList_none,List.append_nil,conditions_release]
    simpa [Register.update] using hd

theorem FollowsAt.step {t : Step} (hQ : Furthers r t Q Q') : (r.step t).FollowsAt Q' := by
  obtain ⟨out,inn,e⟩ := t
  cases e with
  | call cancelled k => exact h.stepCall hQ
  | look cancelled n => exact h.stepLook hQ
  | cancel n => exact h.stepCancel hQ
  | drop n => exact h.stepDrop hQ
  | connect | cancelConnect | abandonConnect | create | abandonReads | reset | disposeStream
  | dispose | pull | push => exact h.same hQ.keep (conditions_step rfl)

end Step

/-- A register before anything has happened. -/
inductive Fresh : Register → Prop
  | intro (role : Role) (options : Options) (codes : CodeSpace) (channel : Channel) :
      Fresh (fresh role options codes channel)

namespace Fresh

theorem station {r : Register} (h : r.Fresh) : r.station.Fresh := by
  cases h
  exact .intro ..

/-- Of the records, what each step furthers holds after all of them. -/
theorem followsAt (h : r.Fresh) {Q : List Step → Nat → Record → Option Wait → Prop}
    (hQ : ∀ steps t, Furthers (r.run steps) t (Q steps) (Q (steps ++ [t]))) (steps : List Step) :
    (r.run steps).FollowsAt (Q steps) := by
  induction steps using List.reverseRecOn with
  | nil =>
    cases h
    exact ⟨rfl,.nil,by simp [run,fresh,conditions,Station.fresh],by simp [run,fresh]⟩
  | append_singleton steps t ih =>
    rw [run_concat]
    exact ih.step (hQ steps t)

theorem follows (h : r.Fresh) {Q : Record → Option Wait → Prop} (hQ : Lasting Q)
    (steps : List Step) : (r.run steps).Follows Q := h.followsAt (fun _ _ => hQ.furthers _ _) steps

end Fresh

/-- Whether a call is about the stream that it waits for, while it does. -/
def Abides (x : Record) : Option Wait → Prop
  | some w => w.stream? = x.call.stream?
  | none => True

theorem abides_lasting : Lasting Abides where
  call c cancelled k := by
    cases ho : c.call cancelled k with
    | mk o c' =>
      cases o with
      | done result => trivial
      | wait w => exact (still_call ho).2
  look {x w} c cancelled h := by
    cases ho : c.resume cancelled w with
    | mk o c' =>
      cases o with
      | done result => trivial
      | wait w' => exact (still_resume w ho).2.trans h
  cancel _ _ := trivial
  drop _ := trivial

/-- All frames on the records of the calls on a stream. -/
def frames (records : List Record) (i : Nat) : List Frame :=
  (records.filter (·.call.stream? = some i)).flatMap (·.queued)

theorem frames_append (xs ys : List Record) (i : Nat) :
    frames (xs ++ ys) i = frames xs i ++ frames ys i := by
  rw [frames,List.filter_append,List.flatMap_append]
  rfl

theorem frames_cons (x : Record) (xs : List Record) (i : Nat) :
    frames (x :: xs) i = frames [x] i ++ frames xs i := frames_append [x] xs i

theorem frames_singleton (x : Record) (i : Nat) :
    frames [x] i = if x.call.stream? = some i then x.queued else [] := by
  by_cases h : x.call.stream? = some i <;> simp [frames,h]

theorem mem_frames {f : Frame} (hx : x ∈ records) (hi : x.call.stream? = some i)
    (hf : f ∈ x.queued) : f ∈ frames records i :=
  List.mem_flatMap.mpr ⟨x,List.mem_filter.mpr ⟨hx,by simpa using hi⟩,hf⟩

theorem frames_modify {f : Record → Record} {more : List Frame} (hx : records[m]? = some x)
    (hf : frames [f x] i = frames [x] i ++ more) :
    (frames (records.modify m f) i).Perm (frames records i ++ more) := by
  induction records generalizing m with
  | nil => simp at hx
  | cons y records ih =>
    rw [frames_cons]
    cases m with
    | zero =>
      obtain rfl : y = x := by simpa using hx
      rw [List.modify_zero_cons,frames_cons,hf,List.append_assoc,List.append_assoc]
      exact List.perm_append_comm.append_left _
    | succ m =>
      rw [List.modify_succ_cons,frames_cons,List.append_assoc]
      exact (ih hx).append_left _

theorem perm_queuedSince (h : c.queuedFor i <:+ c'.queuedFor i) :
    ((c'.queuedFor i).map (·.frame)).Perm
      ((c.queuedFor i).map (·.frame) ++ c'.queuedSince c i) := by
  obtain ⟨new,hnew⟩ := h
  have hsince : c'.queuedSince c i = new.reverse.map (·.frame) := by
    rw [queuedSince,← hnew,List.reverse_append,List.drop_left' List.length_reverse]
  rw [hsince,← hnew,List.map_append]
  exact List.perm_append_comm.trans ((List.reverse_perm new).symm.map _ |>.append_left _)

theorem queuedSince_same (h : c'.queuedFor i = c.queuedFor i) : c'.queuedSince c i = [] := by
  rw [queuedSince,h,List.drop_eq_nil_of_le (by simp)]
  rfl

theorem frames_after (c : Connection) (x : Record) (turn : Outcome × Connection) (i : Nat)
    (h : x.call.stream? ≠ some i → turn.2.queuedFor i = c.queuedFor i) :
    frames [x.after c turn] i = frames [x] i ++ turn.2.queuedSince c i := by
  rw [frames_singleton,frames_singleton]
  by_cases hi : x.call.stream? = some i
  · simp [Record.after,hi]
  · simp [Record.after,hi,queuedSince_same (h hi)]

/-- What is queued for a stream while something happens is put on record. -/
theorem frames_step (h : r.Follows Abides) (t : Step) (i : Nat)
    (hi : r.station.speaker t.event ≠ some i →
      (r.station.step t).connection.queuedFor i = r.station.connection.queuedFor i) :
    (frames (r.step t).records i).Perm
      (frames r.records i ++ (r.station.step t).connection.queuedSince r.station.connection i) := by
  obtain ⟨out,inn,e⟩ := t
  -- where nobody speaks on the stream, nothing is queued
  have hsilent (hs : r.station.speaker e ≠ some i) :
      (frames r.records i).Perm (frames r.records i ++
        (r.station.step ⟨out, inn, e⟩).connection.queuedSince r.station.connection i) := by
    rw [queuedSince_same (hi hs),List.append_nil]
  cases e with
  | call cancelled k =>
    have hserve := step_serve r.station (t := ⟨out, inn, .call cancelled k⟩) rfl
    unfold Register.step
    dsimp only at hserve ⊢
    split at hserve <;> rename_i hb
    · rw [if_pos hb,hserve,queuedSince_same rfl,List.append_nil]
    · rw [hserve,serve,settle_connection] at hi ⊢
      have hafter := frames_after _ { call := k } (r.station.connection.call cancelled k) i hi
      rw [if_neg hb,Register.enter,frames_append,hafter]
      simp [frames_singleton]
  | look cancelled n =>
    unfold Register.step
    dsimp only
    cases hp : r.station.waits[n]? with
    | none => exact hsilent (by simp [speaker,hp])
    | some p =>
      obtain ⟨m,hm⟩ := h.holder hp
      obtain ⟨x,hx,hs⟩ := h.waits (getElem?_conditions hp) hm
      rw [step_look hp,settle_connection] at hi ⊢
      rw [hm]
      refine frames_modify hx (frames_after _ x _ i fun hne => hi ?_)
      rw [speaker,hp,Option.bind_some,show p.wait.stream? = _ from hs]
      exact hne
  | cancel n =>
    unfold Register.step
    dsimp only
    cases hp : r.station.waits[n]? with
    | none => exact hsilent (Option.some_ne_none i).symm
    | some p =>
      obtain ⟨m,hm⟩ := h.holder hp
      obtain ⟨x,hx,-⟩ := h.waits (getElem?_conditions hp) hm
      rw [step_cancel hp] at hi ⊢
      rw [hm]
      exact frames_modify hx (frames_after _ x _ i fun _ => hi (Option.some_ne_none i).symm)
  | drop | connect | cancelConnect | abandonConnect | create | abandonReads | reset | disposeStream
  | dispose | pull | push => exact hsilent (Option.some_ne_none i).symm

/-- Every frame of a stream is on the record of one call on it. -/
theorem Fresh.frames {r : Register} (h : r.Fresh) (steps : List Step) (i : Nat) :
    (((r.run steps).station.connection.queuedFor i).map (·.frame)).Perm
      (frames (r.run steps).records i) := by
  induction steps using List.reverseRecOn with
  | nil =>
    cases h
    exact .nil
  | append_singleton steps t ih =>
    have hstep := h.station.queuedFor_step steps t i
    rw [Station.run_concat,← run_station] at hstep
    rw [run_concat,step_station]
    have hframes := frames_step (h.follows abides_lasting steps) t i hstep.2
    exact (perm_queuedSince hstep.1).trans ((ih.append_right _).trans hframes.symm)

end Register

end Multiplex
