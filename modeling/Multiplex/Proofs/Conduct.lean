import Multiplex.Proofs.Composition
import Multiplex.Proofs.Greeting
import Multiplex.Proofs.Growth
import Multiplex.Proofs.EndpointSteps

/-!
What one end can do, whatever its peer sends: its connection moves, starts streams, takes over
frames or is given up. Everything that holds of all of these steps holds along every run.
-/

namespace Multiplex

variable {c c' : Connection} {i : Nat}

/-- How the phase of a connection can change that is not established anew. -/
def Phase.Fades : Phase → Phase → Prop
  | .connecting, q => q = .connecting ∨ q = .closed
  | .active, q => q ≠ .connecting
  | .closing, q => q = .closing ∨ q = .closed
  | .closed, q => q = .closed

namespace Phase

variable {p q : Phase}

theorem Fades.refl (p : Phase) : p.Fades p := by
  cases p <;> simp [Fades]

theorem Fades.trans {r : Phase} (h : p.Fades q) (h' : q.Fades r) : p.Fades r := by
  cases p <;> cases q <;> cases r <;> simp_all [Fades]

theorem fades_closed (p : Phase) : p.Fades .closed := by
  cases p <;> simp [Fades]

theorem Fades.closed (h : p.Fades q) (hp : p = .closed) : q = .closed := by
  rw [hp] at h
  exact h

theorem Fades.not_closed (h : p.Fades q) (hq : q ≠ .closed) : p ≠ .closed :=
  fun hp => hq (h.closed hp)

theorem Fades.not_connecting (h : p.Fades q) (hp : p ≠ .connecting) : q ≠ .connecting := by
  rintro rfl
  cases p <;> simp_all [Fades]

theorem Fades.active (h : p.Fades q) (hp : p ≠ .connecting) (hq : q = .active) : p = .active := by
  subst hq
  cases p <;> simp_all [Fades]

theorem Fades.established (h : p.Fades q) (hq : q = .active ∨ q = .closing) :
    p = .active ∨ p = .closing := by
  cases p <;> rcases hq with rfl | rfl <;> simp_all [Fades]

end Phase

namespace Connection

variable {f : Frame} {c'' : Connection} {v : Violation} {meant' : Prop}

theorem abort_phase (c : Connection) (e : Failure) : (c.abort e).phase = .closed := by
  by_cases hp : c.phase = .closed
  · simp [abort,hp]
  · rw [abort_eq c e hp]

/-- How a connection goes on that is not established anew. An error comes up only as it closes, and
for a violation somebody is `blamed`; what is established is not cancelled any more. -/
structure Wears (blamed : Prop) (c c' : Connection) : Prop where
  phase : c.phase.Fades c'.phase
  error : c'.error = c.error ∨ c.phase ≠ .closed ∧ c'.phase = .closed ∧ ∃ e, c'.error = some e ∧
    (∀ v, e = .protocolViolation v → blamed) ∧ (e = .cancelled → c.phase = .connecting)

section Wears

variable {blamed : Prop}

theorem Wears.of_eq (hp : c'.phase = c.phase) (he : c'.error = c.error) : Wears blamed c c' :=
  ⟨hp ▸ .refl _,.inl he⟩

theorem Wears.trans (h : Wears blamed c c') (h' : Wears blamed c' c'') : Wears blamed c c'' := by
  refine ⟨h.phase.trans h'.phase,?_⟩
  rcases h'.error with he | ⟨hp,hclosed,e,he,hblame,early⟩
  · rcases h.error with hx | ⟨hp,hclosed,hx⟩
    · exact .inl (he.trans hx)
    · exact .inr ⟨hp,h'.phase.closed hclosed,he ▸ hx⟩
  · refine .inr ⟨h.phase.not_closed hp,hclosed,e,he,hblame,fun hx => ?_⟩
    by_contra hn
    exact h.phase.not_connecting hn (early hx)

theorem Wears.blames (h : Wears blamed c c') : Wears True c c' := by
  refine ⟨h.phase,h.error.imp_right fun ⟨hp,hclosed,e,he,_,early⟩ => ?_⟩
  exact ⟨hp,hclosed,e,he,fun _ _ => trivial,early⟩

theorem Wears.closed (h : Wears blamed c c') (hp : c.phase = .closed) :
    c'.phase = .closed ∧ c'.error = c.error :=
  ⟨h.phase.closed hp,h.error.resolve_right fun hx => hx.1 hp⟩

theorem wears_abort (c : Connection) (e : Failure) (hblame : ∀ v, e = .protocolViolation v → blamed)
    (early : e = .cancelled → c.phase = .connecting ∨ c.phase = .closed) :
    Wears blamed c (c.abort e) := by
  by_cases hp : c.phase = .closed
  · rw [abort,if_pos hp]
    exact .of_eq rfl rfl
  · rw [abort_eq c e hp]
    exact ⟨Phase.fades_closed _,.inr ⟨hp,rfl,e,rfl,hblame,fun hx => (early hx).resolve_right hp⟩⟩

end Wears

theorem Move.wears (h : Move c c') : Wears False c c' := by
  cases h with
  | tend =>
    rw [enqueueControl?_eq]
    exact .of_eq rfl rfl
  | finish =>
    rw [release_eq]
    exact .of_eq rfl rfl
  | reset =>
    rw [release_eq,enqueueControl_eq]
    exact .of_eq rfl rfl
  | say =>
    rw [enqueueControl_eq]
    exact .of_eq rfl rfl
  | close =>
    rw [enqueueClose_eq]
    exact .of_eq rfl rfl
  | lose =>
    rw [failStreams_eq]
    exact .of_eq rfl rfl
  | wane h => exact ⟨by rcases h with h | h <;> simp [h,Phase.Fades],.inl rfl⟩
  | complete => exact ⟨Phase.fades_closed _,.inl rfl⟩
  | abort e hp blameless early => exact wears_abort c e blameless fun hx => .inl (early hx)
  | note | add | send | spend | mark | shut => exact .of_eq rfl rfl

theorem Moves.wears (h : Moves c c') : Wears False c c' := by
  induction h with
  | refl => exact .of_eq rfl rfl
  | tail _ hm ih => exact ih.trans hm.wears

/-- What the state of an end needs of the changes of its connection. -/
structure Fades (c c' : Connection) : Prop where
  phase : c.phase.Fades c'.phase
  options : c'.options = c.options
  readEnded : c'.readEnded = c.readEnded

theorem Fades.refl (c : Connection) : c.Fades c := ⟨.refl _,rfl,rfl⟩

theorem Fades.trans (h : c.Fades c') (h' : c'.Fades c'') : c.Fades c'' :=
  ⟨h.phase.trans h'.phase,h'.options.trans h.options,h'.readEnded.trans h.readEnded⟩

theorem Moves.fades (h : Moves c c') : c.Fades c' :=
  ⟨(Moves.wears h).phase,(Moves.kept h).options,(Moves.kept h).readEnded⟩

theorem Start.fades (h : Start i c c') : c.Fades c' := by
  cases h
  exact ⟨.refl _,rfl,rfl⟩

theorem Evolves.fades {ready : Prop} (h : Evolves ready c c') : c.Fades c' := by
  rcases h with h | ⟨i,c₁,hs,hm,-⟩
  · exact h.fades
  · exact hs.fades.trans hm.fades

theorem fades_abort (c : Connection) (e : Failure) : c.Fades (c.abort e) :=
  ⟨by rw [abort_phase]; exact Phase.fades_closed _,(c.kept_abort e).options,
    (c.kept_abort e).readEnded⟩

theorem Take.wears (h : Take f c c') : Wears False c c' := by
  rcases h.frame.2 with ⟨-,hf⟩ | ⟨-,-,code,hf⟩ <;>
    simp only [flags,Prod.mk.injEq] at hf <;>
    obtain ⟨⟨hp,he⟩,-⟩ := hf
  · exact .of_eq hp he
  · refine ⟨?_,.inl he⟩
    rw [hp]
    split
    · rename_i hx
      simp [hx,Phase.Fades]
    · exact .refl _

theorem Take.fades (h : Take f c c') : c.Fades c' :=
  { h.kept with phase := h.wears.phase }

theorem Breach.phase_eq (h : Breach v f c c') : c'.phase = c.phase ∧ c'.error = c.error :=
  Prod.mk.inj (congrArg Prod.fst h.frame.2.1)

theorem maxBody_congr (h : c'.options = c.options) : c'.maxBody = c.maxBody := by
  simp only [maxBody,h]

/-- What never goes back on a connection: it keeps what it was set up with and the streams that it
has opened. -/
structure Later (c c' : Connection) : Prop where
  role : c'.role = c.role
  codes : c'.codes = c.codes
  options : c'.options = c.options
  opened : ∀ d, c.nextLocal.get d ≤ c'.nextLocal.get d

theorem Kept.later (h : c.Kept c') : c.Later c' :=
  { h with opened := fun d => by rw [h.nextLocal] }

theorem Later.refl (c : Connection) : c.Later c := ⟨rfl,rfl,rfl,fun _ => le_rfl⟩

theorem Later.trans (h : c.Later c') (h' : c'.Later c'') : c.Later c'' :=
  ⟨h'.role.trans h.role,h'.codes.trans h.codes,h'.options.trans h.options,
    fun d => (h.opened d).trans (h'.opened d)⟩

theorem Numbered.of_later (h : c'.Numbered) (hl : c.Later c') : c.Numbered :=
  fun d => (hl.opened d).trans (h d)

theorem Start.later (h : Start i c c') : c.Later c' := by
  obtain ⟨-,-,-,-,-⟩ := h
  refine ⟨rfl,rfl,rfl,fun d => ?_⟩
  simp only [started,PerDirection.get_set]
  split
  · rename_i hd
    subst hd
    exact Nat.le_succ _
  · exact le_rfl

/-- One thing that can happen to a connection, whatever its peer sends. If calls are `meant` to send
something, a stream that starts does so at once. -/
inductive Deed (meant : Prop) : Connection → Connection → Prop
  | move {c c' : Connection} (h : Move c c') : Deed meant c c'
  | start {c c₁ c' : Connection} {i : Nat} (h : Start i c c₁) (hm : Moves c₁ c')
      (speaks : c.Ready ∧ meant → Speaks i c₁ c') : Deed meant c c'
  | take {c c' : Connection} {f : Frame} {size : Nat} (hp : c.phase ≠ .connecting)
      (reads : c.readEnded = false) (h : Take f (c.hear f size) c') : Deed meant c c'
  | breach {c c' : Connection} {v : Violation} {f : Frame} {size : Nat}
      (reads : c.readEnded = false) (h : Breach v f (c.hear f size) c') :
      Deed meant c (c'.abort (.protocolViolation v))
  | endReads (c : Connection) (h : c.closeReceived.isSome) :
      Deed meant c { c with readEnded := true }
  | shutOff (c : Connection) (h : c.readyToShut = true) : Deed meant c { c with writesShut := true }
  | abort (c : Connection) (e : Failure) (hp : c.phase ≠ .closed)
      (early : e = .cancelled → c.phase = .connecting) : Deed meant c (c.abort e)
  | ship {c c' : Connection} {b : Batch} (h : c.takeBatch = (some b, c')) : Deed meant c c'
  | establish (c : Connection) (peer : Settings) (valid : peer.Valid) (hp : c.phase = .connecting) :
      Deed meant c { c with peer, phase := .active }

abbrev Deeds (meant : Prop) : Connection → Connection → Prop := Relation.ReflTransGen (Deed meant)

variable {meant : Prop}

theorem Deed.mono (h : Deed meant c c') (hi : meant' → meant) : Deed meant' c c' := by
  cases h with
  | move h => exact .move h
  | start h hm speaks => exact .start h hm fun ⟨hr,hx⟩ => speaks ⟨hr,hi hx⟩
  | take hp reads h => exact .take hp reads h
  | breach reads h => exact .breach reads h
  | endReads h => exact .endReads c h
  | shutOff h => exact .shutOff c h
  | abort e hp early => exact .abort c e hp early
  | ship h => exact .ship h
  | establish peer valid hp => exact .establish c peer valid hp

theorem Deeds.mono (h : Deeds meant c c') (hi : meant' → meant) : Deeds meant' c c' := by
  induction h with
  | refl => exact .refl
  | tail _ hd ih => exact ih.tail (hd.mono hi)

theorem kept_hear (c : Connection) (f : Frame) (size : Nat) : c.Kept (c.hear f size) :=
  ⟨rfl,rfl,rfl,rfl,rfl,rfl,rfl,rfl⟩

theorem Deed.later (h : Deed meant c c') : c.Later c' := by
  cases h with
  | move h => exact h.kept.later
  | start h hm => exact h.later.trans (Moves.kept hm).later
  | take _ _ h => exact ((kept_hear c _ _).trans h.kept).later
  | breach _ h => exact (((kept_hear c _ _).trans h.kept).trans (kept_abort _ _)).later
  | abort e => exact (kept_abort c e).later
  | ship h =>
    obtain ⟨_,_,_,rfl⟩ := takeBatch_eq h
    exact ⟨rfl,rfl,rfl,fun _ => le_rfl⟩
  | endReads | shutOff | establish => exact ⟨rfl,rfl,rfl,fun _ => le_rfl⟩

theorem Deeds.later (h : Deeds meant c c') : c.Later c' := by
  induction h with
  | refl => exact .refl c
  | tail _ h ih => exact ih.trans h.later

theorem Deed.wears (h : Deed meant c c') :
    c.phase = .connecting ∧ c'.phase = .active ∧ c'.error = c.error ∨ Wears True c c' := by
  cases h with
  | establish peer valid hp => exact .inl ⟨hp,rfl,rfl⟩
  | move h => exact .inr h.wears.blames
  | start h hm =>
    obtain ⟨-,-,-,-,-⟩ := h
    have hw := (Moves.wears hm).blames
    exact .inr ⟨hw.phase,hw.error⟩
  | take _ _ h =>
    have hw := h.wears.blames
    exact .inr ⟨hw.phase,hw.error⟩
  | breach _ h =>
    have hbreach : Wears True c _ := .of_eq h.phase_eq.1 h.phase_eq.2
    exact .inr (hbreach.trans (wears_abort _ _ (fun _ _ => trivial) (by simp)))
  | endReads | shutOff => exact .inr (.of_eq rfl rfl)
  | abort e _ early => exact .inr (wears_abort c e (fun _ _ => trivial) fun hx => .inl (early hx))
  | ship h =>
    obtain ⟨_,_,_,rfl⟩ := takeBatch_eq h
    exact .inr (.of_eq rfl rfl)

theorem Deed.closed (h : Deed meant c c') (hp : c.phase = .closed) :
    c'.phase = .closed ∧ c'.error = c.error := by
  rcases h.wears with ⟨hx,-⟩ | h
  · cases hp.symm.trans hx
  · exact h.closed hp

theorem Sound.abandon (h : c.Sound) (e : Failure) : (c.abort e).Sound := by
  by_cases hp : c.phase = .closed
  · rwa [Connection.abort,if_pos hp]
  · exact h.abort e hp

theorem Deed.sound (hd : Deed meant c c') (h : c.Sound) (hn : c'.Numbered) : c'.Sound := by
  cases hd with
  | move hm => exact hm.sound h
  | start hs hm => exact hm.sound (hs.sound h (hn.of_later (Moves.kept hm).later))
  | take hp _ ht => exact ht.sound (h.hear _ _) hp
  | breach _ hb => exact (hb.sound (h.hear _ _)).abandon _
  | endReads | shutOff => exact h.noted _ _ _ _ _ _ _
  | abort e hp => exact h.abort e hp
  | ship hb => exact h.takeBatch hb
  | establish peer _ hp => exact h.establish hp peer

theorem Deeds.sound (hd : Deeds meant c c') (h : c.Sound) (hn : c'.Numbered) : c'.Sound := by
  induction hd with
  | refl => exact h
  | tail _ hstep ih => exact hstep.sound (ih (hn.of_later hstep.later)) hn

theorem Deeds.keep {P : Connection → Prop}
    (step : ∀ c c', Deed meant c c' → c.Sound → c'.Numbered → P c → P c') (hd : Deeds meant c c')
    (hs : c.Sound) (hn : c'.Numbered) (h : P c) : P c' := by
  induction hd with
  | refl => exact h
  | tail hd hstep ih =>
    have hn' := hn.of_later hstep.later
    exact step _ _ hstep (Deeds.sound hd hs hn') hn (ih hn')

theorem Breach.grown (hb : Breach v f c c') : Grown c c' := by
  induction hb with
  | surface metrics changes _ _ ih =>
    exact (grown_surfaced _ _ metrics changes).trans ih
  | neverOpened | beyondLimit | data | duplicateClose | lateSettings => exact .of_eq rfl

theorem Sound.grown_abort (h : c.Sound) (e : Failure) : Grown c (c.abort e) := by
  by_cases hp : c.phase = .closed
  · rw [Connection.abort,if_pos hp]
    exact .of_eq rfl
  · exact (h.fell_abort e hp).grown

theorem Deed.lasts (hd : Deed meant c c') (h : c.Sound) (hn : c'.Numbered) : Lasts c c' := by
  cases hd with
  | move hm => exact (hm.grown h).lasts
  | start hs hm =>
    have h₁ := hs.sound h (hn.of_later (Moves.kept hm).later)
    exact hs.lasts.trans (Moves.grown hm h₁).lasts
  | take _ _ ht => exact (ht.grown (h.hear _ _)).lasts
  | breach _ hb => exact (hb.grown.trans ((hb.sound (h.hear _ _)).grown_abort _)).lasts
  | abort e => exact (h.grown_abort e).lasts
  | ship hb =>
    obtain ⟨_,_,_,rfl⟩ := takeBatch_eq hb
    exact (Grown.of_eq rfl).lasts
  | endReads | shutOff | establish => exact (Grown.of_eq rfl).lasts

theorem Deeds.lasts (hd : Deeds meant c c') (h : c.Sound) (hn : c'.Numbered) : Lasts c c' :=
  hd.keep (fun _ _ hstep hs hn hl => hl.trans (hstep.lasts hs hn)) h hn (Grown.of_eq rfl).lasts

theorem Deeds.retires (hd : Deeds meant c c') (h : c.Sound) (hn : c'.Numbered) {s : Stream}
    (hi : c.streams[i]? = some s) (hr : s.released = true) :
    ∃ s', c'.streams[i]? = some s' ∧ s'.id = s.id ∧ s'.released = true := by
  have hid : s.id.isSome := by
    rw [Option.isSome_iff_ne_none]
    intro hnone
    cases ((h.idle hi hnone).1.released).symm.trans hr
  obtain ⟨s',hi',hg⟩ := hd.lasts h hn i s hi hid
  exact ⟨s',hi',hg.id,hg.released hr⟩

theorem Moves.deeds (h : Moves c c') : Deeds meant c c' := by
  induction h with
  | refl => exact .refl
  | tail _ h ih => exact ih.tail (.move h)

theorem Evolves.deeds (h : Evolves (c.Ready ∧ meant) c c') : Deeds meant c c' := by
  rcases h with h | ⟨i,c₁,hs,hm,speaks⟩
  · exact h.deeds
  · by_cases hx : c.Ready ∧ meant
    · obtain ⟨c₂,hk,hm₂⟩ := speaks hx
      exact .head (.start hs hk.1 fun _ => hk) hm₂.deeds
    · exact .single (.start hs hm fun hy => absurd hy hx)

theorem deeds_abort (c : Connection) (e : Failure)
    (early : e = .cancelled → c.phase = .connecting ∨ c.phase = .closed) :
    Deeds meant c (c.abort e) := by
  by_cases hp : c.phase = .closed
  · rw [abort,if_pos hp]
  · exact .single (.abort c e hp fun hx => (early hx).resolve_right hp)

theorem handle_fades {now : Nat} (hn : c.handle now f = (none, c')) : c.Fades c' := by
  have h := handle_handled c now f
  rw [hn] at h
  obtain ⟨c₁,ht,hm⟩ := h
  exact ht.fades.trans hm.fades

theorem deeds_receive (hp : c.phase ≠ .connecting) (reads : c.readEnded = false) (now : Nat)
    (inbox : Bytes) :
    Deeds meant c (c.receive now inbox).1 ∧ (c.receive now inbox).1.phase ≠ .connecting ∧
      (c.receive now inbox).1.readEnded = false := by
  refine receive_induct (R := fun c c' => c.phase ≠ .connecting → c.readEnded = false →
    Deeds meant c c' ∧ c'.phase ≠ .connecting ∧ c'.readEnded = false) ?_ ?_ ?_ ?_ c inbox hp reads
  · exact fun _ hp reads => ⟨.refl,hp,reads⟩
  · intro c c₁ c' f size hx hrest hp reads
    have hh := handle_handled (c.hear f size) now f
    rw [hx] at hh
    obtain ⟨_,ht,hm⟩ := hh
    have hf := handle_fades hx
    obtain ⟨hd,hlast⟩ := hrest (hf.phase.not_connecting hp) (hf.readEnded.trans reads)
    exact ⟨.head (.take hp reads ht) (hm.deeds.trans hd),hlast⟩
  · intro c c₁ f size v hx _ reads
    have hh := handle_handled (c.hear f size) now f
    rw [hx] at hh
    refine ⟨.single (.breach reads hh),by simp [abort_phase],?_⟩
    rw [(kept_abort c₁ _).readEnded,hh.kept.readEnded]
    exact reads
  · exact fun c e _ reads => ⟨deeds_abort c _ (by simp),by simp [abort_phase],
      (kept_abort c _).readEnded.trans reads⟩

theorem sound_fresh (role : Role) (options : Options) (codes : CodeSpace) :
    (fresh role options codes).Sound := by
  refine ⟨⟨?_,?_,?_,?_,?_⟩,⟨?_,?_,?_,?_,?_⟩,⟨?_,?_⟩,⟨?_,?_,?_,?_,?_⟩⟩
  · intro d
    simp [fresh]
  all_goals simp [fresh]

end Connection

namespace Endpoint

variable {r r' : Running}

open Connection

/-- Whether the stage of an end goes with the phase of its connection. -/
structure Staged (e : Endpoint) : Prop where
  established : ∀ r, e.stage = .running r → e.connection.phase ≠ .connecting
  running : e.connection.phase = .active ∨ e.connection.phase = .closing → ∃ r, e.stage = .running r
  /-- The end of the input is noted once the reader has seen it. -/
  reads : e.connection.readEnded = true →
    e.stage = .gone ∨ ∃ r, e.stage = .running r ∧ r.reading = false

variable {meant : Prop} {e e' : Endpoint} {out inn out' inn' : Pipe} {now : Nat}

theorem Staged.fade (h : e.Staged) (hf : e.connection.Fades c) :
    Staged { e with connection := c } :=
  ⟨fun r hr => hf.phase.not_connecting (h.established r hr),
    fun hp => h.running (hf.phase.established hp),fun hr => h.reads (hf.readEnded.symm.trans hr)⟩

/-- An end that is not running has a connection that was never established, or is closed. -/
theorem Staged.early (h : e.Staged) (hs : ∀ r, e.stage ≠ .running r)
    (hp : e.connection.phase ≠ .closed) : e.connection.phase = .connecting := by
  cases hx : e.connection.phase with
  | connecting => rfl
  | active =>
    obtain ⟨r,hr⟩ := h.running (.inl hx)
    exact absurd hr (hs r)
  | closing =>
    obtain ⟨r,hr⟩ := h.running (.inr hx)
    exact absurd hr (hs r)
  | closed => exact absurd hx hp

theorem Staged.outside (h : e.Staged) (hs : ∀ r, e.stage ≠ .running r) :
    e.connection.phase = .connecting ∨ e.connection.phase = .closed :=
  or_iff_not_imp_right.mpr (h.early hs)

/-- What a step of an end does: deeds of its connection, with a stage that goes with them. -/
def Does (meant : Prop) (e e' : Endpoint) : Prop :=
  Deeds meant e.connection e'.connection ∧ e'.Staged

section

variable (h : e.Staged)

include h

theorem Staged.refl : e.Does meant e := ⟨.refl,h⟩

theorem Staged.abort (f : Failure)
    (early : f = .cancelled → e.connection.phase = .connecting ∨ e.connection.phase = .closed) :
    e.Does meant { e with connection := e.connection.abort f } :=
  ⟨deeds_abort _ f early,h.fade (fades_abort _ f)⟩

theorem Staged.failConnect (f : Failure)
    (early : f = .cancelled → e.connection.phase = .connecting ∨ e.connection.phase = .closed) :
    e.Does meant (e.failConnect f) := by
  obtain ⟨hd,hs⟩ := h.abort f early
  exact ⟨hd,hs.established,hs.running,hs.reads⟩

theorem Staged.rerun (hr : e.stage = .running r) (hd : Deeds meant e.connection c)
    (hp : e.connection.phase ≠ .connecting → c.phase ≠ .connecting)
    (reads : c.readEnded = true → r'.reading = false) :
    e.Does meant { e with connection := c, stage := .running r' } :=
  ⟨hd,⟨fun _ _ => hp (h.established r hr),fun _ => ⟨r',rfl⟩,fun hx => .inr ⟨r',rfl,reads hx⟩⟩⟩

theorem Staged.reading (hg : e.stage ≠ .gone) (hx : ∀ r, e.stage = .running r → r.reading = true) :
    e.connection.readEnded = false := by
  refine Bool.eq_false_of_not_eq_true fun hr => ?_
  rcases h.reads hr with hr | ⟨r,hr,hf⟩
  · exact hg hr
  · cases (hx r hr).symm.trans hf

theorem Staged.rerun_moves (hr : e.stage = .running r) (hm : Moves e.connection c)
    (hx : r'.reading = r.reading) : e.Does meant { e with connection := c, stage := .running r' } :=
  h.rerun hr hm.deeds hm.fades.phase.not_connecting fun he => by
    rcases h.reads (hm.fades.readEnded.symm.trans he) with hg | ⟨r₁,hr₁,hf⟩
    · cases hr.symm.trans hg
    · cases hr.symm.trans hr₁
      exact hx.trans hf

theorem Staged.shutDown (hx : e.connection.readyToShut = true) :
    e.Does meant { e with connection := e.connection.writesShutDown } := by
  have hm := moves_writesShutDown hx
  have hf := hm.fades
  exact ⟨.head (.shutOff _ hx) hm.deeds,h.fade { hf with }⟩

theorem Staged.connect (hx : e.connect now = .ok e') : e.Does meant e' := by
  cases connects_of_connect hx with
  | start early stage =>
    exact ⟨.refl,by simp,by simp [early],fun hr => absurd (h.reads hr) (by simp [stage])⟩
  | fail early => exact h.failConnect _ fun _ => .inl early

end

theorem does_leave (hp : ¬(e.connection.phase = .active ∨ e.connection.phase = .closing)) :
    e.Does meant { e with stage := .gone } :=
  ⟨.refl,by simp,fun hx => absurd hx hp,fun _ => .inl rfl⟩

theorem does_letGo (hp : e.connection.phase = .closed) : e.Does meant e.letGo := by
  have hn : ¬(e.connection.phase = .active ∨ e.connection.phase = .closing) := by simp [hp]
  unfold Endpoint.letGo
  split
  · exact ⟨.refl,by simp,fun hx => absurd hx hn,fun _ => .inl rfl⟩
  · exact does_leave hn
  · exact does_leave hn
  · exact does_leave hn

theorem Staged.opening {o : Opening} {deadline : Nat} (h : e.Staged)
    (hs : e.stage = .opening o deadline) (hp : e.connection.phase ≠ .closed) :
    e.connection.phase = .connecting ∧ e.connection.readEnded = false :=
  ⟨h.early (by simp [hs]) hp,h.reading (by simp [hs]) (by simp [hs])⟩

theorem Staged.pull (h : e.Staged) (hx : Pulls e now out inn e' out' inn') : e.Does meant e' := by
  cases hx with
  | leave closed => exact does_letGo closed
  | next live stage =>
    obtain ⟨hp,reads⟩ := h.opening stage live
    exact ⟨.refl,by simp,by simp [hp],by simp [reads]⟩
  | refuse live stage => exact h.failConnect _ fun _ => .inl (h.opening stage live).1
  | @establish _ _ peer inbox _ _ live stage step =>
    obtain ⟨hp,reads⟩ := h.opening stage live
    obtain ⟨hd,hn,hr⟩ := deeds_receive (c := { e.connection with peer, phase := .active }) (by simp)
      reads now inbox
    exact ⟨.head (.establish _ peer ((Opening.step_plods step).valid rfl) hp) hd,fun _ _ => hn,
      fun _ => ⟨_,rfl⟩,fun hx => absurd (hr.symm.trans hx) (by simp)⟩
  | late => exact h.failConnect _ (by simp)
  | @takeIn r _ _ stage reading =>
    have reads := h.reading (by simp [stage]) (by simpa [stage] using reading)
    obtain ⟨hd,hn,hr⟩ := deeds_receive (h.established r stage) reads now (r.inbox ++ inn.buffer)
    exact h.rerun stage hd (fun _ => hn) fun hx => absurd (hr.symm.trans hx) (by simp)
  | endInput _ stage =>
    rcases moves_endOfInput e.connection with hm | ⟨hc,hm⟩
    · exact h.rerun stage hm.deeds hm.fades.phase.not_connecting (by simp)
    · exact h.rerun stage (.head (.endReads _ hc) hm.deeds) hm.fades.phase.not_connecting (by simp)
  | idle => exact h.abort _ (by simp)
  | beat _ stage => exact h.rerun_moves stage (Move.moves (.say (.inl ⟨_,rfl⟩))) rfl

theorem Staged.push (h : e.Staged) (hx : Pushes e out e' out') : e.Does meant e' := by
  cases hx with
  | broken => exact h.abort _ (by simp)
  | complete _ stage => exact h.rerun_moves stage (moves_batchWritten _ _) rfl
  | write _ stage => exact h.rerun_moves stage .refl rfl
  | ship _ stage _ taken =>
    have hd : Deeds meant e.connection _ := .single (.ship taken)
    obtain ⟨_,_,_,rfl⟩ := takeBatch_eq taken
    refine h.rerun stage hd id fun hx => ?_
    rcases h.reads hx with hg | ⟨r',hr',hf⟩
    · cases stage.symm.trans hg
    · cases stage.symm.trans hr'
      exact hf
  | shut _ _ _ ready => exact h.shutDown ready

end Endpoint

namespace Station

variable {s : Station}

open Connection

theorem moves_createStream {d : Direction} (h : c.createStream d = .ok (i, c')) : Moves c c' := by
  unfold createStream at h
  split at h
  · rename_i hp
    cases h
    exact Move.moves (.add d hp)
  · cases h
  · cases h
  · cases h

/-- The calls that wait on the end have something to send. -/
def Meant (s : Station) : Prop := ∀ p ∈ s.waits, p.wait.Meant

/-- What an end can become by an event that leaves the pipes alone. -/
inductive Serves (s : Station) : Endpoint → Prop
  | evolve {c : Connection}
      (h : Evolves (s.connection.Ready ∧ s.Meant) s.connection c) :
      Serves s { s.endpoint with connection := c }
  | connect {now : Nat} {e : Endpoint} (h : s.endpoint.connect now = .ok e) : Serves s e
  | cancel (opening : ∀ r, s.endpoint.stage ≠ .running r) :
      Serves s (s.endpoint.failConnect .cancelled)

theorem Serves.moves (h : Moves s.connection c) : Serves s { s.endpoint with connection := c } :=
  .evolve h.evolves

theorem Serves.refl (s : Station) : Serves s s.endpoint := .moves .refl

theorem serve_serves (s : Station) (e : Event) : Serves s (s.serve e).endpoint := by
  have h := s.served e
  generalize s.serve e = s' at h
  cases h with
  | rest | drop => exact .refl s
  | connect h => exact .connect h
  | cancelConnect stage => exact .cancel (by simp [stage])
  | create h => exact .moves (moves_createStream h)
  | call cancelled k =>
    rw [settle_endpoint]
    exact .evolve ((evolves_call s.connection cancelled k).mono And.left)
  | @look cancelled _ p hp =>
    rw [settle_endpoint]
    exact .evolve ((evolves_resume s.connection cancelled p.wait).mono
      fun ⟨hr,hm⟩ => ⟨hr,hm p (List.mem_of_getElem? hp)⟩)
  | @cancel _ p => exact .moves (moves_cancel s.connection p.wait)
  | abandonReads i => exact .moves (moves_abandonReads s.connection i)
  | reset i code => exact .moves (moves_reset s.connection i code)
  | disposeStream i => exact .moves (moves_disposeStream s.connection i)
  | dispose => exact .moves (moves_abort s.connection (by simp) (by simp))

theorem Serves.does {e : Endpoint} (h : Serves s e) (hs : s.endpoint.Staged) :
    s.endpoint.Does s.Meant e := by
  cases h with
  | evolve h => exact ⟨h.deeds,hs.fade h.fades⟩
  | connect h => exact hs.connect h
  | cancel opening => exact hs.failConnect _ fun _ => hs.outside opening

theorem does_act (h : s.endpoint.Staged) (out inn : Pipe) (e : Event) :
    s.endpoint.Does s.Meant (s.act out inn e).1.endpoint := by
  have ha := s.acted out inn e
  generalize s.act out inn e = r at ha
  cases ha with
  | rest => exact h.refl
  | leave stage =>
    refine Endpoint.does_leave fun hp => ?_
    obtain ⟨r,hr⟩ := h.running hp
    cases stage.symm.trans hr
  | pull hx => exact h.pull hx
  | push hx => exact h.push hx
  | serve => exact (s.serve_serves e).does h

theorem Meant.release (h : s.Meant) (n : Nat) : (s.release n).Meant :=
  fun w hw => h w (List.mem_of_mem_eraseIdx hw)

theorem Meant.settle (h : s.Meant) {r : Outcome × Connection} (hr : ∀ w, r.1 = .wait w → w.Meant) :
    (s.settle r).Meant := by
  obtain ⟨_ | w,c⟩ := r
  · exact h
  · intro p hp
    rcases List.mem_append.mp hp with hp | hp
    · exact h p hp
    · rw [List.mem_singleton.mp hp]
      exact hr w rfl

theorem Meant.serve (h : s.Meant) (e : Event) : (s.serve e).Meant := by
  have hs := s.served e
  generalize s.serve e = s' at hs
  cases hs with
  | call cancelled k => exact h.settle fun w => meant_call
  | look _ hp => exact (h.release _).settle fun w' => meant_resume (h _ (List.mem_of_getElem? hp))
  | cancel | drop => exact h.release _
  | rest | connect | cancelConnect | create | abandonReads | reset | disposeStream | dispose =>
    exact h

theorem Meant.act (h : s.Meant) (out inn : Pipe) (e : Event) : (s.act out inn e).1.Meant := by
  have ha := s.acted out inn e
  generalize s.act out inn e = r at ha
  cases ha with
  | serve => exact h.serve e
  | rest | leave | pull | push => exact h

theorem run_append (s : Station) (steps more : List Step) :
    s.run (steps ++ more) = (s.run steps).run more := by
  simp [run]

theorem run_concat (s : Station) (steps : List Step) (t : Step) :
    s.run (steps ++ [t]) = (s.run steps).step t := by
  simp [run]

theorem Meant.run (h : s.Meant) (steps : List Step) : (s.run steps).Meant := by
  induction steps using List.reverseRecOn with
  | nil => exact h
  | append_singleton steps t ih =>
    rw [run_concat]
    exact ih.act t.out t.inn t.event

theorem does_run (h : s.endpoint.Staged) (steps : List Step) :
    s.endpoint.Does s.Meant (s.run steps).endpoint := by
  induction steps using List.reverseRecOn with
  | nil => exact h.refl
  | append_singleton steps t ih =>
    rw [run_concat]
    obtain ⟨hd,hs⟩ := ih
    obtain ⟨hd',hs'⟩ := does_act hs t.out t.inn t.event
    exact ⟨hd.trans (hd'.mono fun hm => hm.run steps),hs'⟩

/-- An end before anything has happened to it. -/
inductive Fresh : Station → Prop
  | intro (role : Role) (options : Options) (codes : CodeSpace) (channel : Channel) :
      Fresh (fresh role options codes channel)

namespace Fresh

variable (h : s.Fresh)

include h

theorem connection {P : Connection → Prop}
    (hp : ∀ role options codes, P (.fresh role options codes)) : P s.connection := by
  cases h
  exact hp ..

theorem staged (steps : List Step) : (s.run steps).endpoint.Staged := by
  have hs : s.endpoint.Staged := by
    cases h
    refine ⟨?_,?_,?_⟩ <;> simp [fresh,Endpoint.ofConnection,Connection.fresh]
  exact (does_run hs steps).2

theorem deeds_more (steps more : List Step) :
    Deeds (s.run steps).Meant (s.run steps).connection (s.run (steps ++ more)).connection := by
  rw [run_append]
  exact (does_run (h.staged steps) more).1

theorem deeds (steps : List Step) : Deeds True s.connection (s.run steps).connection := by
  refine (h.deeds_more [] steps).mono fun _ => ?_
  cases h
  simp [Meant,run,fresh]

theorem numbered {steps more : List Step} (hn : (s.run (steps ++ more)).connection.Numbered) :
    (s.run steps).connection.Numbered :=
  hn.of_later (h.deeds_more steps more).later

/-- Whatever happens to an end keeps its connection sound, as long as its stream ids last. -/
theorem sound {steps : List Step} (hn : (s.run steps).connection.Numbered) :
    (s.run steps).connection.Sound :=
  (h.deeds steps).sound (h.connection sound_fresh) hn

end Fresh

end Station

end Multiplex
