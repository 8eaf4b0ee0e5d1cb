import Multiplex.Opening
import Multiplex.Proofs.Codec

/-!
The opening of a connection, read against what the peer is to say: each step takes in the next part
of it, writes the next part of what this end is to say, or fails.
-/

namespace Multiplex

variable {size : Nat} {got bs rest : Bytes} {p p' : Pipe}

theorem Pipe.write_spec (h : p.write bs = .partly rest p') :
    ∃ done, bs = done ++ rest ∧ p'.buffer = p.buffer ++ done ∧ p'.closed = p.closed ∧
      rest.length ≤ bs.length - 1 := by
  unfold write at h
  split at h
  · cases h
  · split at h
    · cases h
    · cases h
      refine ⟨_,(List.take_append_drop _ _).symm,rfl,rfl,?_⟩
      rw [List.length_drop]
      omega

/-- What gathering bytes comes to: some more of them, and at most as many as were wanted. -/
theorem Pipe.gather_spec {g : Gathered} (h : p.gather size got = some (g, p')) :
    p'.closed = p.closed ∧ (g = .ended ∧ p.ended = true ∨ ∃ bs, bs ++ p'.buffer = got ++ p.buffer ∧
      (got.length ≤ size → bs.length ≤ size) ∧
        (g = .all bs ∧ size ≤ bs.length ∨ g = .part bs)) := by
  unfold gather at h
  dsimp only at h
  split at h
  · cases h
    exact ⟨rfl,.inr ⟨got,rfl,id,.inl ⟨rfl,by omega⟩⟩⟩
  · split at h
    · rename_i hempty
      split at h
      · rename_i hc
        cases h
        exact ⟨rfl,.inl ⟨rfl,by simp [ended,hc,hempty]⟩⟩
      · cases h
    · obtain ⟨rfl,rfl⟩ := Prod.mk.inj (Option.some.inj h)
      refine ⟨rfl,.inr ⟨got ++ (p.read (size - got.length)).1,?_,fun hl => ?_,?_⟩⟩
      · rw [read,List.append_assoc,List.take_append_drop]
      · rw [read,List.length_append,List.length_take]
        omega
      · split
        · exact .inr rfl
        · exact .inl ⟨rfl,by omega⟩

/-- The name that a peer gets to hear. One that is too long is never said. -/
def Identity.announced (i : Identity) : Bytes :=
  if maxName < i.nameBytes.length then [] else i.nameBytes

theorem Identity.length_announced (i : Identity) : i.announced.length ≤ maxName := by
  unfold announced
  split
  · simp
  · omega

theorem Identity.toWord_size (h : size ≤ maxName) : Bytes.toWord (Bytes.ofWord 2 size) = size := by
  rw [Bytes.toWord_ofWord,Nat.mod_eq_of_lt]
  exact lt_of_le_of_lt h (by decide)

/-- What an end says before its first frame. -/
structure Preamble where
  magic : Bytes
  size : Bytes
  name : Bytes
  verdict : Bytes
  settings : Bytes

def Channel.of : Option (Identity × Identity) → Channel
  | none => .plain
  | some (own, _) => .identity own

/-- What an end says that announces `settings`. -/
def Preamble.of (names : Option (Identity × Identity)) (settings : Settings) : Preamble :=
  match names with
  | none => ⟨[], [], [], [], Frame.encode (.settings settings)⟩
  | some (own, peer) => ⟨Identity.magic, Bytes.ofWord 2 own.announced.length, own.announced,
      [own.verdict (Text.lossy peer.announced)], Frame.encode (.settings settings)⟩

namespace Opening

variable {out out' inn inn' : Pipe} {bs : Bytes} {done : Opening} {failed : PipeFault → Progress}
  {p : Progress} {part rest : Bytes → Opening}

def Suits (names : Option (Identity × Identity)) (o : Opening) : Prop :=
  match o, names with
  | .settings _, _ | .peerSettings _, _ => True
  | _, none => False
  | .hello _, some _ => True
  | .magic got, some _ => got.length ≤ 4
  | .nameSize got, some _ => got.length ≤ 2
  | .name size got, some (_, peer) => size = peer.announced.length ∧ got.length ≤ size
  | .verdict who, some (_, peer) | .answer who _, some (_, peer) => who = Text.lossy peer.announced

def unsent (p : Preamble) : Opening → Bytes
  | .hello rest => rest ++ (p.verdict ++ p.settings)
  | .magic _ | .nameSize _ | .name .. | .verdict _ => p.verdict ++ p.settings
  | .answer .. => p.settings
  | .settings rest => rest
  | .peerSettings _ => []

def due (p : Preamble) : Opening → Bytes
  | .hello _ | .magic _ => p.magic ++ (p.size ++ (p.name ++ (p.verdict ++ p.settings)))
  | .nameSize _ => p.size ++ (p.name ++ (p.verdict ++ p.settings))
  | .name .. => p.name ++ (p.verdict ++ p.settings)
  | .verdict _ | .answer .. => p.verdict ++ p.settings
  | .settings _ | .peerSettings _ => p.settings

def held : Opening → Bytes
  | .magic got | .nameSize got | .name _ got | .peerSettings got => got
  | .hello _ | .verdict _ | .answer .. | .settings _ => []

/-- Whether an end could not say what it had to. -/
def Muted : Opening → Prop
  | .answer _ fault => fault.isSome
  | _ => False

theorem writing_spec (h : writing out bs rest done failed = some (p, out')) :
    ∃ new left, out'.buffer = out.buffer ++ new ∧ out'.closed = out.closed ∧ new ++ left = bs ∧
      (p = failed .broken ∧ out' = out ∧ out.closed = true ∨
        p = .next (rest left) ∧ left ≠ [] ∧ left.length ≤ bs.length - 1 ∨ p = .next done ∧
          left = []) := by
  unfold writing at h
  split at h
  · rename_i hw
    cases h
    refine ⟨[],bs,(List.append_nil _).symm,rfl,rfl,.inl ⟨rfl,rfl,?_⟩⟩
    unfold Pipe.write at hw
    split at hw
    · assumption
    · split at hw <;> cases hw
  · cases h
  · rename_i hw
    cases h
    obtain ⟨new,hsplit,hbuf,hc,-⟩ := Pipe.write_spec hw
    exact ⟨new,[],hbuf,hc,hsplit.symm,.inr (.inr ⟨rfl,rfl⟩)⟩
  · rename_i left _ hne hw
    cases h
    obtain ⟨new,hsplit,hbuf,hc,hlen⟩ := Pipe.write_spec hw
    exact ⟨new,left,hbuf,hc,hsplit.symm,.inr (.inl ⟨rfl,hne,hlen⟩)⟩

theorem reading_spec {done : Bytes → Progress}
    (h : reading inn size got part done = some (p, inn')) :
    inn'.closed = inn.closed ∧ (p = handshakeFailed .ended ∧ inn.ended = true ∨
      ∃ bs, bs ++ inn'.buffer = got ++ inn.buffer ∧ (got.length ≤ size → bs.length ≤ size) ∧
        (p = done bs ∧ size ≤ bs.length ∨ p = .next (part bs))) := by
  unfold reading at h
  split at h
  · cases h
  all_goals
    rename_i hg
    cases h
    obtain ⟨hc,hx⟩ := Pipe.gather_spec hg
    refine ⟨hc,?_⟩
    rcases hx with ⟨⟨⟩,he⟩ | ⟨_,hbuf,hl,⟨⟨⟩,hs⟩ | ⟨⟨⟩⟩⟩
  · exact .inr ⟨_,hbuf,hl,.inl ⟨rfl,hs⟩⟩
  · exact .inr ⟨_,hbuf,hl,.inr rfl⟩
  · exact .inl ⟨rfl,he⟩

/-- Reading a piece of what is to come, `left` being what comes after it. -/
theorem reading_piece {piece left more : Bytes} {done : Bytes → Progress} (hl : got.length ≤ size)
    (hsize : piece.length = size) (hin : got ++ (inn.buffer ++ more) = piece ++ left)
    (h : reading inn size got part done = some (p, inn')) :
    p = handshakeFailed .ended ∧ inn.ended = true ∨
    ∃ bs, bs ++ inn'.buffer = got ++ inn.buffer ∧ bs ++ (inn'.buffer ++ more) = piece ++ left ∧
      (p = .next (part bs) ∧ bs.length ≤ size ∨ p = done piece ∧ bs = piece) := by
  refine (reading_spec h).2.imp_right fun ⟨bs,hbuf,hle,hp⟩ => ?_
  have hall : bs ++ (inn'.buffer ++ more) = piece ++ left := by
    rw [← hin,← List.append_assoc,hbuf,List.append_assoc]
  refine ⟨bs,hbuf,hall,?_⟩
  rcases hp with ⟨rfl,hs⟩ | rfl
  · obtain ⟨rfl,-⟩ := List.append_inj hall (by have := hle hl; omega)
    exact .inr ⟨rfl,rfl⟩
  · exact .inl ⟨rfl,hle hl⟩

/-- What a step of the opening leads to, of an end that announces `own`. The peer announces `peer`,
has `rest` still to write, and goes on with `ahead`. -/
def Leads (names : Option (Identity × Identity)) (own peer : Settings) (maxBody : Nat) (o : Opening)
    (out : Pipe) (rest ahead : Bytes) : Progress → Pipe → Pipe → Prop
  | .next o', out', inn' =>
    o'.Suits names ∧ ¬o.Muted ∧
      (∃ left, out'.buffer ++ left = out.buffer ++ o.unsent (.of names own) ∧
        (¬o'.Muted → left = o'.unsent (.of names own))) ∧
      o'.held ++ (inn'.buffer ++ rest) = o'.due (.of (names.map Prod.swap) peer) ++ ahead
  | .failed f, out', _ => out' = out ∧ (∀ v, f ≠ .protocolViolation v) ∧
      ∀ e, f = .connectFailed (.frame e) → ¬(Frame.settings peer).Fits maxBody
  | .established s inbox, out', inn' => out' = out ∧ ¬o.Muted ∧ o.unsent (.of names own) = [] ∧
      s = peer.heard ∧ (Frame.settings peer).Fits maxBody ∧ inbox ++ (inn'.buffer ++ rest) = ahead

theorem readSettings_spec (maxBody : Nat) {peer : Settings} {inbox more ahead : Bytes}
    (h : inbox ++ more = Frame.encode (.settings peer) ++ ahead) :
    readSettings maxBody inbox = .next (.peerSettings inbox) ∨
    (∃ left, readSettings maxBody inbox = .established peer.heard left ∧
      (Frame.settings peer).Fits maxBody ∧ left ++ more = ahead) ∨
    ∃ e, readSettings maxBody inbox = .failed (.connectFailed (.frame e)) ∧
      ¬(Frame.settings peer).Fits maxBody := by
  unfold readSettings
  by_cases hf : (Frame.settings peer).Fits maxBody
  · rcases Frame.decode_frames hf h with hd | ⟨left,hd,hl⟩
    · rw [hd]
      exact .inl rfl
    · rw [hd]
      exact .inr (.inl ⟨left,rfl,hf,hl⟩)
  · rcases Frame.decode_settings_of_not_fits hf h with hd | ⟨e,left,hd⟩
    · rw [hd]
      exact .inl rfl
    · rw [hd]
      exact .inr (.inr ⟨e,rfl,hf⟩)

section Steps

variable {inbox left : Bytes} {channel : Channel}

variable {names : Option (Identity × Identity)} {own peer : Settings} {maxBody : Nat} {o : Opening}
  {out out' inn inn' : Pipe} {rest ahead : Bytes} {p : Progress}

theorem Leads.handshakeFailed (fault : PipeFault) (inn' : Pipe) :
    o.Leads names own peer maxBody out rest ahead (handshakeFailed fault) out inn' :=
  ⟨rfl,by simp,by simp⟩

theorem settle_cases (i : Identity) (own : Settings) (who : String) (fault : Option PipeFault)
    (answer : Option UInt8) :
    (settle i own who fault answer = .next (announce own) ∧ fault = none ∧ answer.isSome) ∨
    ∃ f, settle i own who fault answer = .failed f ∧ (∀ v, f ≠ .protocolViolation v) ∧
      ∀ e, f ≠ .connectFailed (.frame e) := by
  unfold settle
  split
  · exact .inr ⟨_,rfl,by simp,by simp⟩
  · split
    · exact .inr ⟨_,rfl,by simp,by simp⟩
    · split
      · exact .inr ⟨_,rfl,by simp,by simp⟩
      · split
        · exact .inr ⟨_,rfl,by simp,by simp⟩
        · exact .inl ⟨rfl,rfl,rfl⟩

theorem valid_of_readSettings {maxBody : Nat} {peer : Settings}
    (h : readSettings maxBody inbox = .established peer left) : peer.Valid := by
  unfold readSettings at h
  split at h
  · rename_i hd
    cases h
    exact Frame.valid_of_decode hd
  · cases h
  · cases h
  · cases h

/-- What a step comes to, whatever the peer says. A connection is established with settings that may
be announced. -/
structure Plods (out inn : Pipe) (p : Progress) (out' inn' : Pipe) : Prop where
  out : ∃ bs, out'.buffer = out.buffer ++ bs ∧ out'.closed = out.closed
  inn : inn'.closed = inn.closed
  valid : ∀ {peer : Settings} {left : Bytes}, p = .established peer left → peer.Valid

theorem step_plods (h : o.step channel own maxBody out inn = some (p, out', inn')) :
    Plods out inn p out' inn' := by
  have hwrite {bs : Bytes} {rest : Bytes → Opening} {done : Opening} {failed : PipeFault → Progress}
      (hf : ∀ peer left, failed .broken ≠ .established peer left)
      (h : ∃ r, writing out bs rest done failed = some r ∧ (r.1, r.2, inn) = (p, out', inn')) :
      Plods out inn p out' inn' := by
    obtain ⟨r,hw,⟨⟩⟩ := h
    obtain ⟨new,_,hb,hc,-,hp⟩ := writing_spec hw
    refine ⟨⟨new,hb,hc⟩,rfl,fun hx => ?_⟩
    rcases hp with ⟨hp,-⟩ | ⟨hp,-⟩ | ⟨hp,-⟩ <;> rw [hp] at hx
    · exact absurd hx (hf _ _)
    · cases hx
    · cases hx
  have hread {size : Nat} {got : Bytes} {part : Bytes → Opening} {done : Bytes → Progress}
      (hd : ∀ bs peer left, done bs ≠ .established peer left)
      (h : ∃ r, reading inn size got part done = some r ∧ (r.1, out, r.2) = (p, out', inn')) :
      Plods out inn p out' inn' := by
    obtain ⟨r,hr,⟨⟩⟩ := h
    obtain ⟨hc,hp⟩ := reading_spec hr
    refine ⟨⟨[],(List.append_nil _).symm,rfl⟩,hc,fun hx => ?_⟩
    rcases hp with ⟨hp,-⟩ | ⟨bs,-,-,⟨hp,-⟩ | hp⟩ <;> rw [hp] at hx
    · cases hx
    · exact absurd hx (hd _ _ _)
    · cases hx
  have hstay {q : Progress} {y : Pipe} (hy : y.closed = inn.closed)
      (hv : ∀ {peer left}, q = .established peer left → peer.Valid) : Plods out inn q out y :=
    ⟨⟨[],(List.append_nil _).symm,rfl⟩,hy,hv⟩
  unfold step at h
  split at h
  · exact hwrite (by simp [handshakeFailed]) (Option.map_eq_some_iff.mp h)
  · refine hread (fun bs => ?_) (Option.map_eq_some_iff.mp h)
    unfold readMagic
    split <;> simp
  · refine hread (fun bs => ?_) (Option.map_eq_some_iff.mp h)
    unfold readNameSize
    dsimp only
    split <;> simp
  · exact hread (by simp) (Option.map_eq_some_iff.mp h)
  · exact hwrite (by simp) (Option.map_eq_some_iff.mp h)
  · rename_i who fault i
    have hsettle (answer : Option UInt8) {peer : Settings} {left : Bytes} :
        settle i own who fault answer ≠ .established peer left := by
      rcases settle_cases i own who fault answer with ⟨hx,-⟩ | ⟨f,hx,-⟩ <;> simp [hx]
    split at h
    · rename_i hg
      cases h
      exact hstay (Pipe.gather_spec hg).1 fun hx => absurd hx (hsettle _)
    · rename_i hg
      cases h
      exact hstay (Pipe.gather_spec hg).1 fun hx => absurd hx (hsettle _)
    · cases h
  · cases h
    exact hstay rfl fun hx => by cases hx
  · cases h
    exact hstay rfl fun hx => by cases hx
  · exact hwrite (by simp) (Option.map_eq_some_iff.mp h)
  · split at h
    · split at h <;> cases h
      exact hstay rfl fun hx => by cases hx
    · cases h
      exact hstay rfl valid_of_readSettings

theorem step_leads_settings (hin : (Opening.settings left).held ++ (inn.buffer ++ rest) =
      (Opening.settings left).due (.of (names.map Prod.swap) peer) ++ ahead)
    (h : (Opening.settings left).step channel own maxBody out inn = some (p, out', inn')) :
    (Opening.settings left).Leads names own peer maxBody out rest ahead p out' inn' := by
  obtain ⟨⟨p,out'⟩,hw,heq⟩ := Option.map_eq_some_iff.mp h
  cases heq
  obtain ⟨new,left',hb,-,rfl,⟨rfl,rfl,-⟩ | ⟨rfl,-⟩ | ⟨rfl,rfl⟩⟩ := writing_spec hw
  · exact ⟨rfl,by simp,by simp⟩
  · exact ⟨trivial,id,⟨left',by simp [unsent,hb],fun _ => rfl⟩,hin⟩
  · exact ⟨trivial,id,⟨[],by simp [unsent,hb],fun _ => rfl⟩,hin⟩

theorem step_leads_peerSettings (hin : (Opening.peerSettings inbox).held ++ (inn.buffer ++ rest) =
      (Opening.peerSettings inbox).due (.of (names.map Prod.swap) peer) ++ ahead)
    (h : (Opening.peerSettings inbox).step channel own maxBody out inn = some (p, out', inn')) :
    (Opening.peerSettings inbox).Leads names own peer maxBody out rest ahead p out' inn' := by
  simp only [step] at h
  split at h
  · split at h
    · cases h
      exact ⟨rfl,by simp,by simp⟩
    · cases h
  · cases h
    have hset : (inbox ++ inn.buffer) ++ rest = Frame.encode (.settings peer) ++ ahead := by
      rw [List.append_assoc]
      cases names <;> exact hin
    rcases readSettings_spec maxBody hset with hx | ⟨left,hx,hf,hl⟩ | ⟨e,hx,hf⟩
    · simp only [Pipe.readAll,hx]
      refine ⟨trivial,id,⟨[],rfl,fun _ => rfl⟩,?_⟩
      simpa [held,due] using hin
    · simp only [Pipe.readAll,hx]
      exact ⟨rfl,id,rfl,rfl,hf,by simpa using hl⟩
    · simp only [Pipe.readAll,hx]
      exact ⟨rfl,by simp,fun _ _ => hf⟩

/-- What the pipes allow next, while the peer says what it is to say. -/
theorem step_leads (rest : Bytes) (hs : o.Suits names)
    (hin : o.held ++ (inn.buffer ++ rest) = o.due (.of (names.map Prod.swap) peer) ++ ahead)
    (h : o.step (Channel.of names) own maxBody out inn = some (p, out', inn')) :
    o.Leads names own peer maxBody out rest ahead p out' inn' := by
  match o,names with
  | .settings left,_ => exact step_leads_settings hin h
  | .peerSettings inbox,_ => exact step_leads_peerSettings hin h
  | .hello left,some (a, b) =>
    obtain ⟨⟨p,out'⟩,hw,heq⟩ := Option.map_eq_some_iff.mp h
    cases heq
    obtain ⟨new,left',hb,-,rfl,⟨rfl,rfl,-⟩ | ⟨rfl,-⟩ | ⟨rfl,rfl⟩⟩ := writing_spec hw
    · exact .handshakeFailed _ _
    · exact ⟨trivial,id,⟨_,by simp [unsent,hb],fun _ => rfl⟩,hin⟩
    · exact ⟨Nat.zero_le _,id,⟨_,by simp [unsent,hb],fun _ => rfl⟩,hin⟩
  | .magic got,some (a, b) =>
    obtain ⟨⟨p,inn'⟩,hr,heq⟩ := Option.map_eq_some_iff.mp h
    cases heq
    rw [due,List.append_assoc] at hin
    obtain ⟨rfl,-⟩ | ⟨bs,-,hx,⟨rfl,hb⟩ | ⟨rfl,rfl⟩⟩ := reading_piece hs rfl hin hr
    · exact .handshakeFailed _ _
    · exact ⟨hb,id,⟨_,rfl,fun _ => rfl⟩,by rw [due,List.append_assoc]; exact hx⟩
    · exact ⟨Nat.zero_le _,id,⟨_,rfl,fun _ => rfl⟩,by simpa [due,held] using hx⟩
  | .nameSize got,some (a, b) =>
    obtain ⟨⟨p,inn'⟩,hr,heq⟩ := Option.map_eq_some_iff.mp h
    cases heq
    rw [due,List.append_assoc] at hin
    obtain ⟨rfl,-⟩ | ⟨bs,-,hx,⟨rfl,hb⟩ | ⟨rfl,rfl⟩⟩ :=
      reading_piece hs (Bytes.length_ofWord 2 _) hin hr
    · exact .handshakeFailed _ _
    · exact ⟨hb,id,⟨_,rfl,fun _ => rfl⟩,by rw [due,List.append_assoc]; exact hx⟩
    · simp only [readNameSize,Identity.toWord_size b.length_announced,
        if_neg (Nat.not_lt.mpr b.length_announced)]
      exact ⟨⟨rfl,Nat.zero_le _⟩,id,⟨_,rfl,fun _ => rfl⟩,by simpa [due,held] using hx⟩
  | .name size got,some (a, b) =>
    obtain ⟨rfl,hl⟩ := hs
    obtain ⟨⟨p,inn'⟩,hr,heq⟩ := Option.map_eq_some_iff.mp h
    cases heq
    rw [due,List.append_assoc] at hin
    obtain ⟨rfl,-⟩ | ⟨bs,-,hx,⟨rfl,hb⟩ | ⟨rfl,rfl⟩⟩ := reading_piece hl rfl hin hr
    · exact .handshakeFailed _ _
    · exact ⟨⟨rfl,hb⟩,id,⟨_,rfl,fun _ => rfl⟩,by rw [due,List.append_assoc]; exact hx⟩
    · exact ⟨rfl,id,⟨_,rfl,fun _ => rfl⟩,by simpa [due,held] using hx⟩
  | .verdict who,some (a, b) =>
    obtain ⟨⟨p,out'⟩,hw,heq⟩ := Option.map_eq_some_iff.mp h
    cases heq
    obtain rfl := hs
    obtain ⟨new,left,hb,-,hsplit,⟨rfl,rfl,-⟩ | ⟨rfl,hne,hlen⟩ | ⟨rfl,rfl⟩⟩ := writing_spec hw
    · exact ⟨rfl,id,⟨_,rfl,fun hx => absurd rfl hx⟩,hin⟩
    · exact absurd (List.eq_nil_of_length_eq_zero (by simpa using hlen)) hne
    · exact ⟨rfl,id,⟨_,by simp [unsent,Preamble.of,hb,← hsplit],fun _ => rfl⟩,hin⟩
  | .answer who fault,some (a, b) =>
    simp only [step,Channel.of] at h
    split at h
    · rename_i v vs inn' hg
      cases h
      obtain ⟨-,⟨⟨⟩,-⟩ | ⟨_,he,hlen,⟨⟨⟩,-⟩ | ⟨⟨⟩⟩⟩⟩ := Pipe.gather_spec hg
      obtain rfl := List.eq_nil_of_length_eq_zero (by simpa using hlen)
      rcases settle_cases a own who fault (some v) with ⟨hx,rfl,-⟩ | ⟨f,hx,h₁,h₂⟩
      · rw [hx]
        refine ⟨trivial,by simp [Muted],⟨_,rfl,fun _ => rfl⟩,?_⟩
        have hy : [v] ++ (inn'.buffer ++ rest) =
            [b.verdict (Text.lossy a.announced)] ++ (Frame.encode (.settings peer) ++ ahead) := by
          rw [← List.append_assoc,he]
          exact hin
        exact (List.append_inj hy rfl).2
      · rw [hx]
        exact ⟨rfl,h₁,fun e hf => absurd hf (h₂ e)⟩
    · rename_i inn' hg
      cases h
      rcases settle_cases a own who fault none with ⟨-,-,⟨⟩⟩ | ⟨f,hx,h₁,h₂⟩
      rw [hx]
      exact ⟨rfl,h₁,fun e hf => absurd hf (h₂ e)⟩
    · cases h

end Steps

end Opening

end Multiplex
