import Multiplex.Proofs.Course
import Multiplex.Proofs.Headers

/-!
What both sides of a call write and read: a header with its length in front, and then a payload.
-/

namespace Multiplex

namespace Standing

def Silent (a : Standing) : Prop := a.sent = [] ∧ a.finished = false

/-- Whether `w` was sent since `a₀`. What was gone already says nothing. -/
structure Says (a₀ : Standing) (w : Bytes) (a : Standing) : Prop where
  mute : a₀.gone = true → w = []
  ages : (a₀.tell w).Ages a

/-- Whether `got` was read since `a₀`, and the end was not. -/
structure Reads (a₀ : Standing) (got : Bytes) (a : Standing) : Prop where
  direction : a.direction = a₀.direction
  remote : a.remote = a₀.remote
  read : a.read = a₀.read ++ got
  ended : a.ended = a₀.ended
  abandoned : a.abandoned = a₀.abandoned

/-- What sending `total`, and the end where `whole`, can make of `a₀` on the way. -/
def Sends (a₀ : Standing) (total : Bytes) (whole : Prop) (a : Standing) : Prop :=
  (∃ w, w <+: total ∧ a₀.Says w a) ∨ whole ∧ ∃ a₁, a₀.Says total a₁ ∧ a₁.finish.Ages a

variable {a₀ a₁ a a' : Standing} {w v got more : Bytes}

theorem Silent.ages (h : a.Silent) (ha : a.Ages a') : a'.Silent := by
  cases ha <;> exact h

theorem says_of_ages (h : a.Ages a') : a.Says [] a' := ⟨fun _ => rfl,a.ages_tell_nil.trans h⟩

theorem Says.trans (h : a₀.Says w a) (h' : a.Says v a') : a₀.Says (w ++ v) a' :=
  ⟨h.ages.mute_append h.mute h'.mute,h.ages.tell_trans h'.ages⟩

theorem Says.later (h : a₀.Says w a) (ha : a.Ages a') : a₀.Says w a' := ⟨h.mute,h.ages.trans ha⟩

theorem Reads.trans (h : a₀.Reads got a) (h' : a.Reads more a') : a₀.Reads (got ++ more) a' := by
  refine ⟨h'.direction.trans h.direction,h'.remote.trans h.remote,?_,h'.ended.trans h.ended,
    h'.abandoned.trans h.abandoned⟩
  rw [h'.read,h.read,List.append_assoc]

theorem Ages.reads (h : a.Ages a') : a.Reads [] a' := by
  cases h <;> exact ⟨rfl,rfl,(List.append_nil _).symm,rfl,rfl⟩

theorem Says.reads (h : a₀.Says w a) : a₀.Reads [] a := by
  have htell : a₀.Reads [] (a₀.tell w) := ⟨rfl,rfl,(List.append_nil _).symm,rfl,rfl⟩
  exact htell.trans h.ages.reads

theorem reads_finish (a : Standing) : a.Reads [] a.finish :=
  ⟨rfl,rfl,(List.append_nil _).symm,rfl,rfl⟩

theorem reads_take (a : Standing) (got : Bytes) : a.Reads got (a.take got) := ⟨rfl,rfl,rfl,rfl,rfl⟩

theorem Sends.later {total : Bytes} {whole : Prop} (h : a₀.Sends total whole a) (ha : a.Ages a') :
    a₀.Sends total whole a' := by
  rcases h with ⟨w,hw,hs⟩ | ⟨hwhole,a₁,hs,hf⟩
  · exact .inl ⟨w,hw,hs.later ha⟩
  · exact .inr ⟨hwhole,a₁,hs,hf.trans ha⟩

theorem Sends.reads {total : Bytes} {whole : Prop} (h : a₀.Sends total whole a) :
    a₀.Reads [] a := by
  rcases h with ⟨w,hw,hs⟩ | ⟨hwhole,a₁,hs,hf⟩
  · exact hs.reads
  · exact (hs.reads.trans a₁.reads_finish).trans hf.reads

end Standing

namespace Rpc

def SourceStep.data : SourceStep → Bytes
  | .chunk data => data
  | .gate _ => []

def Source.data : Option Source → Bytes
  | some s => s.steps.flatMap SourceStep.data
  | none => []

/-- How a payload that may be there fails in the end. -/
def Source.failure? (source : Option Source) : Option String := source.bind (·.failure)

/-- Whether `bytes` is the length of a header and then a text that reads as `x`. -/
def Heads {α : Type} (reader : Json.Reader α) (x : α) (bytes : Bytes) : Prop :=
  ∃ length text, bytes = length ++ text ∧ length.length = lengthSize ∧
    text.length = Bytes.toWord length ∧ Json.whole reader text = some x

/-- What sending a header and a payload can make of `a₀` on the way. -/
def Posts (a₀ : Standing) (text : Bytes) (max : Nat) (source : Option Source) (a : Standing) :
    Prop :=
  a₀.Says [] a ∨ ∃ framed, frameHeader text max = .ok framed ∧
    a₀.Sends (framed ++ Source.data source) (Source.failure? source = none) a

/-- What may be on the wire of a header and a payload: nothing, a part, or all of it and the end. -/
def Posted (text : Bytes) (max : Nat) (source : Option Source) (a : Standing) : Prop :=
  a.Silent ∨ ∃ framed, frameHeader text max = .ok framed ∧
    a.sent <+: framed ++ Source.data source ∧
      (a.finished = true → a.sent = framed ++ Source.data source ∧ Source.failure? source = none)

section Frames

variable {α : Type} {reader : Json.Reader α} {x : α} {text bytes length framed rest : Bytes}
  {max : Nat}

theorem frameHeader_eq_ok (h : frameHeader text max = .ok framed) :
    framed = Bytes.ofWord lengthSize text.length ++ text ∧ text.length < UInt32.size := by
  unfold frameHeader at h
  split at h
  · cases h
  · rename_i hle
    simp only [Bool.or_eq_true,decide_eq_true_eq,not_or] at hle
    cases h
    exact ⟨rfl,by omega⟩

theorem Heads.eq_framed (h : Heads reader x bytes) (hf : frameHeader text max = .ok framed)
    (hp : bytes <+: framed ++ rest) : bytes = framed ∧ Json.whole reader text = some x := by
  obtain ⟨length,body,rfl,hlength,hbody,hread⟩ := h
  obtain ⟨rfl,hsize⟩ := frameHeader_eq_ok hf
  obtain ⟨more,hmore⟩ := hp
  have hsame : length ++ (body ++ more) =
      Bytes.ofWord lengthSize text.length ++ (text ++ rest) := by
    simpa using hmore
  have hword : (Bytes.ofWord lengthSize text.length).length = lengthSize := Bytes.length_ofWord _ _
  obtain ⟨rfl,htail⟩ := List.append_inj hsame (hlength.trans hword.symm)
  have hlen : body.length = text.length := by
    rw [hbody,Bytes.toWord_ofWord]
    exact Nat.mod_eq_of_lt hsize
  obtain ⟨rfl,-⟩ := List.append_inj htail hlen
  exact ⟨rfl,hread⟩

def announced (bytes : Bytes) : Nat := Bytes.toWord (bytes.take lengthSize)

def decodeHeader (reader : Json.Reader α) (text : Bytes) : Except Error α :=
  match Json.whole reader text with
  | some h => .ok h
  | none => .error .undecodable

/-- What the header at the front of `bytes` is, and what comes after it, if it is whole. -/
def scanHeader (reader : Json.Reader α) (max : Nat) (bytes : Bytes) :
    Option (Except Error α × Bytes) :=
  let rest := bytes.drop lengthSize
  if bytes.length < lengthSize then none
  else if max < announced bytes then some (.error (.headerTooLarge (announced bytes) max), rest)
  else if rest.length < announced bytes then none
  else some (decodeHeader reader (rest.take (announced bytes)), rest.drop (announced bytes))

theorem announced_append (h : length.length = lengthSize) :
    announced (length ++ rest) = Bytes.toWord length := by
  rw [announced,List.take_left' h]

theorem scanHeader_append (h : length.length = lengthSize) :
    scanHeader reader max (length ++ rest) =
      if max < Bytes.toWord length then
        some (.error (.headerTooLarge (Bytes.toWord length) max), rest)
      else if rest.length < Bytes.toWord length then none
      else some (decodeHeader reader (rest.take (Bytes.toWord length)),
        rest.drop (Bytes.toWord length)) := by
  have hlong : ¬(length ++ rest).length < lengthSize := by simp [h]
  rw [scanHeader,announced_append h,List.drop_left' h,if_neg hlong]

theorem scanHeader_of_lt (h : bytes.length < lengthSize) : scanHeader reader max bytes = none := by
  rw [scanHeader,if_pos h]

theorem heads_of_scan (h : scanHeader reader max bytes = some (.ok x, [])) :
    Heads reader x bytes := by
  unfold scanHeader at h
  dsimp only at h
  split at h
  · cases h
  split at h
  · cases h
  split at h
  · cases h
  rename_i hlong _ hsize
  obtain ⟨hread,hrest⟩ := Prod.mk.inj (Option.some.inj h)
  have hle := List.drop_eq_nil_iff.mp hrest
  rw [List.take_of_length_le hle,decodeHeader] at hread
  refine ⟨bytes.take lengthSize,bytes.drop lengthSize,(List.take_append_drop _ _).symm,?_,?_,?_⟩
  · rw [List.length_take]
    omega
  · exact Nat.le_antisymm hle (Nat.not_lt.mp hsize)
  · split at hread
    · cases hread
      assumption
    · cases hread

end Frames

section Posting

variable {a₀ a a' : Standing} {text : Bytes} {max : Nat} {source : Option Source}

section

variable (h : Posts a₀ text max source a)

include h

theorem Posts.later (ha : a.Ages a') : Posts a₀ text max source a' := by
  rcases h with h | ⟨framed,hf,h⟩
  · exact .inl (h.later ha)
  · exact .inr ⟨framed,hf,h.later ha⟩

theorem Posts.reads : a₀.Reads [] a := by
  rcases h with h | ⟨framed,hf,h⟩
  · exact h.reads
  · exact h.reads

theorem Posts.mute (hs : a₀.Silent) (hg : a₀.gone = true) : a.Silent := by
  have htold {w : Bytes} (h : a₀.Says w a) : a.Silent := by
    have hages := h.ages
    rw [h.mute hg,Standing.tell_nil] at hages
    exact hs.ages hages
  rcases h with h | ⟨framed,hf,⟨w,-,h⟩ | ⟨-,a₁,h,-⟩⟩
  · exact htold h
  · exact htold h
  · -- The end comes after a header, and there is none.
    have hnil := h.mute hg
    obtain ⟨rfl,-⟩ := frameHeader_eq_ok hf
    have hlen := congrArg List.length hnil
    simp [Bytes.length_ofWord,lengthSize] at hlen

theorem Posts.posted (hs : a₀.Silent) : Posted text max source a := by
  have htold {w : Bytes} {a : Standing} (h : a₀.Says w a) : a.sent = w ∧ a.finished = false := by
    obtain ⟨hsent,hfinished⟩ := hs
    cases h.ages <;> simp [Standing.tell,hsent,hfinished]
  rcases h with h | ⟨framed,hf,⟨w,hw,h⟩ | ⟨hwhole,a₁,h,hfin⟩⟩
  · exact .inl (htold h)
  · obtain ⟨rfl,hfinished⟩ := htold h
    refine .inr ⟨framed,hf,hw,fun hfin => ?_⟩
    cases hfinished.symm.trans hfin
  · have hsent : a.sent = framed ++ Source.data source := by
      cases hfin <;> exact (htold h).1
    exact .inr ⟨framed,hf,hsent ▸ List.prefix_rfl,fun _ => ⟨hsent,hwhole⟩⟩

end

theorem Posted.of_eq (h : Posted text max source a) (hs : a'.sent = a.sent)
    (hf : a'.finished = a.finished) : Posted text max source a' := by
  unfold Posted Standing.Silent at h ⊢
  rwa [hs,hf]

theorem Posted.later (h : Posted text max source a) (ha : a.Ages a') :
    Posted text max source a' := by
  cases ha <;> exact h.of_eq rfl rfl

def PostedOn (d : Direction) (text : Bytes) (max : Nat) (source : Option Source) (a : Standing) :
    Prop :=
  a.direction = d ∧ Posted text max source a

variable {d : Direction}

theorem PostedOn.of_eq (h : PostedOn d text max source a) (hd : a'.direction = a.direction)
    (hs : a'.sent = a.sent) (hf : a'.finished = a.finished) : PostedOn d text max source a' :=
  ⟨hd.trans h.1,h.2.of_eq hs hf⟩

theorem PostedOn.later (h : PostedOn d text max source a) (ha : a.Ages a') :
    PostedOn d text max source a' :=
  ⟨ha.reads.direction.trans h.1,h.2.later ha⟩

end Posting

section Receiving

variable {α : Type} {reader : Json.Reader α} {max count : Nat} {a₀ a a' : Standing}

/-- What `count` bytes that were read since `a₀` can come to. -/
inductive Pieced (count : Nat) (a₀ : Standing) : Except Error Bytes → Standing → Prop
  | whole {got : Bytes} {a : Standing} (size : got.length = count) (h : (a₀.take got).Ages a) :
      Pieced count a₀ (.ok got) a
  | short {got : Bytes} {a : Standing} (less : got.length < count) (h : (a₀.take got).see.Ages a) :
      Pieced count a₀ (.error (.invalidHeader .truncated)) a
  | lost {e : Error} {got : Bytes} {a : Standing}
      (gone : a₀.readable = true → a₀.abandoned = false → a.gone = true)
      (h : (a₀.take got).Ages a) :
      Pieced count a₀ (.error e) a

/-- How the stream stands while some of `count` bytes have not come. -/
def Missing (count : Nat) (a₀ a : Standing) : Prop :=
  ∃ got, got.length < count ∧ (a₀.take got).Ages a

/-- What a header that was read since `a₀` can come to. -/
inductive Scanned (reader : Json.Reader α) (max : Nat) (a₀ : Standing) :
    Except Error α → Standing → Prop
  | whole {r : Except Error α} {got : Bytes} {a : Standing}
      (scan : scanHeader reader max got = some (r, [])) (h : (a₀.take got).Ages a) :
      Scanned reader max a₀ r a
  | truncated {got : Bytes} {a : Standing} (scan : scanHeader reader max got = none)
      (h : (a₀.take got).see.Ages a) : Scanned reader max a₀ (.error (.invalidHeader .truncated)) a
  | lost {e : Error} {got : Bytes} {a : Standing}
      (gone : a₀.readable = true → a₀.abandoned = false → a.gone = true)
      (h : (a₀.take got).Ages a) :
      Scanned reader max a₀ (.error e) a

/-- How the stream stands while a header is read. -/
def Scanning (reader : Json.Reader α) (max : Nat) (a₀ a : Standing) : Prop :=
  ∃ got, scanHeader reader max got = none ∧ (a₀.take got).Ages a

theorem Scanned.later {r : Except Error α} (h : Scanned reader max a₀ r a) (ha : a.Ages a') :
    Scanned reader max a₀ r a' := by
  cases h with
  | whole scan h => exact .whole scan (h.trans ha)
  | truncated scan h => exact .truncated scan (h.trans ha)
  | lost gone h => exact .lost (fun hr hn => ha.gone (gone hr hn)) (h.trans ha)

theorem Scanning.later (h : Scanning reader max a₀ a) (ha : a.Ages a') :
    Scanning reader max a₀ a' := by
  obtain ⟨got,scan,h⟩ := h
  exact ⟨got,scan,h.trans ha⟩

end Receiving

/-- Whether a process whose payload is attached as `b` says has a stream as `P` says. -/
def On (b : Bool) (P : Standing → Prop) (q : Post) : Prop := q.attached = b ∧ P q.standing

theorem steady_on {P : Standing → Prop} (b : Bool) (h : ∀ a a', P a → a.Ages a' → P a') :
    Steady (On b P) :=
  fun _ _ hq ha => ⟨ha.attached.trans hq.1,h _ _ hq.2 ha.standing⟩

namespace Process

variable {a₀ a : Standing} {b : Bool} {text : Bytes} {max : Nat} {source : Option Source}

section Sending

variable {w data total : Bytes} {whole : Prop}

theorem sure_write (hw : a₀.Says w a) (hp : w ++ data <+: total) :
    (ask (.write data)).Sure (On b (a₀.Sends total whole))
      (fun r q => On b (a₀.Sends total whole) q ∧ (r = .ok () → a₀.Says (w ++ data) q.standing))
      ⟨a, b⟩ := by
  have hpart {part rest : Bytes} {a' : Standing} (hdata : data = part ++ rest)
      (h : a.Says part a') : a₀.Sends total whole a' := by
    refine .inl ⟨w ++ part,?_,hw.trans h⟩
    have hle : w ++ part <+: w ++ data := by
      rw [hdata,List.prefix_append_right_inj]
      exact List.prefix_append part rest
    exact hle.trans hp
  refine ⟨.send data,rfl,fun r a' hg => ?_,fun t' a' hb _ => ?_⟩
  · cases hg with
    | @sent _ x present h =>
      have hs : a.Says data a' := ⟨fun hg => absurd (present.symm.trans hg) Bool.false_ne_true,h⟩
      exact ⟨⟨rfl,hpart (List.append_nil data).symm hs⟩,fun _ => hw.trans hs⟩
    | unsent mute h =>
      refine ⟨⟨rfl,hpart rfl ⟨mute,h⟩⟩,fun hr => ?_⟩
      cases hr
  · cases hb with
    | send mute h => exact ⟨rfl,hpart rfl ⟨mute,h⟩⟩

theorem sure_sendSteps (failure : Option String) (steps : List SourceStep) (hw : a₀.Says w a)
    (hp : w ++ steps.flatMap SourceStep.data = total) :
    (sendSteps failure steps).Sure (On b (a₀.Sends total whole))
      (fun r q => On b (a₀.Sends total whole) q ∧
        (r = .ok () → failure = none ∧ a₀.Says total q.standing)) ⟨a, b⟩ := by
  induction steps generalizing w a with
  | nil =>
    have hall : w = total := by simpa using hp
    have hsends : a₀.Sends total whole a := .inl ⟨w,hall ▸ List.prefix_rfl,hw⟩
    unfold sendSteps
    cases failure with
    | some reason => exact ⟨⟨rfl,hsends⟩,by simp⟩
    | none => exact ⟨⟨rfl,hsends⟩,fun _ => ⟨rfl,hall ▸ hw⟩⟩
  | cons step rest ih =>
    have hsends : a₀.Sends total whole a := .inl ⟨w,hp ▸ List.prefix_append _ _,hw⟩
    cases step with
    | gate name => exact ⟨⟨rfl,hsends⟩,ih hw (by simpa [SourceStep.data] using hp)⟩
    | chunk data =>
      have hrest : (w ++ data) ++ rest.flatMap SourceStep.data = total := by
        simpa [SourceStep.data] using hp
      refine (sure_write hw (hrest ▸ List.prefix_append _ _)).andThen (fun _ h => h)
        (fun x q h => ?_)
        fun e q h => ⟨h.1,by simp⟩
      obtain ⟨⟨rfl,-⟩,hok⟩ := h
      exact ih (hok rfl) hrest

theorem sure_finish (hw : a₀.Says total a) (hwhole : whole) :
    (ask .finish).Sure (On b (a₀.Sends total whole)) (fun _ => On b (a₀.Sends total whole))
      ⟨a, b⟩ := by
  have hold {a' : Standing} (h : a.Ages a') : a₀.Sends total whole a' :=
    .inl ⟨total,List.prefix_rfl,hw.later h⟩
  refine ⟨.finish,rfl,fun r a' hg => ?_,fun t' a' hb _ => ?_⟩
  · cases hg with
    | finished h => exact ⟨rfl,.inr ⟨hwhole,a,hw,h⟩⟩
    | unfinished h => exact ⟨rfl,hold h⟩
  · cases hb with
    | finish h => exact ⟨rfl,hold h⟩

end Sending

theorem sure_flush {safe : Post → Prop} {q : Post} (hs : Steady safe) (hq : safe q) :
    (ask .flush).Sure safe (fun _ => safe) q := by
  refine ⟨.flush,rfl,fun r a' hg => ?_,fun t' a' hb _ => ?_⟩
  · cases hg with
    | flushed h =>
      have hsafe := hs q ⟨a',q.attached⟩ hq ⟨h,rfl⟩
      cases r with
      | ok | error => exact hsafe
  · cases hb with
    | flush h => exact hs q _ hq ⟨h,rfl⟩

theorem sure_sendHeader (a₀ : Standing) (b : Bool) (text : Bytes) (max : Nat)
    (source : Option Source) :
    (sendHeader text max).Sure (On b (Posts a₀ text max source))
      (fun r q => On b (Posts a₀ text max source) q ∧
        (r = .ok () → ∃ framed, frameHeader text max = .ok framed ∧ a₀.Says framed q.standing))
      ⟨a₀, b⟩ := by
  have hnothing : a₀.Says [] a₀ := Standing.says_of_ages .same
  unfold sendHeader
  cases hf : frameHeader text max with
  | error e => exact ⟨⟨rfl,.inl hnothing⟩,by simp⟩
  | ok framed =>
    have hposts (q : Post) (h : On b (a₀.Sends (framed ++ Source.data source)
        (Source.failure? source = none)) q) : On b (Posts a₀ text max source) q :=
      ⟨h.1,.inr ⟨framed,hf,h.2⟩⟩
    have hp : [] ++ framed <+: framed ++ Source.data source := List.prefix_append _ _
    refine (sure_write hnothing hp).mono hposts fun r q hr => ?_
    exact ⟨hposts q hr.1,fun hx => ⟨framed,rfl,hr.2 hx⟩⟩

theorem sure_sendSource {framed : Bytes} (hf : frameHeader text max = .ok framed)
    (hw : a₀.Says framed a) :
    (sendSource source).Sure (On b (Posts a₀ text max source))
      (fun r q => On b (Posts a₀ text max source) q ∧
        (r = .ok () → Source.failure? source = none ∧
          a₀.Says (framed ++ Source.data source) q.standing)) ⟨a, b⟩ := by
  cases source with
  | none =>
    have hall : a₀.Says (framed ++ Source.data none) a := by simpa [Source.data] using hw
    exact ⟨⟨rfl,.inr ⟨framed,hf,.inl ⟨_,List.prefix_rfl,hall⟩⟩⟩,fun _ => ⟨rfl,hall⟩⟩
  | some s =>
    refine (sure_sendSteps s.failure s.steps hw rfl).mono (fun q h => ⟨h.1,.inr ⟨framed,hf,h.2⟩⟩)
      fun r q hr => ?_
    exact ⟨⟨hr.1.1,.inr ⟨framed,hf,hr.1.2⟩⟩,hr.2⟩

theorem sure_respond (a₀ : Standing) (b : Bool) (reply : Reply) (max : Nat) :
    (respond reply max).Sure (On b (Posts a₀ reply.header.encode max reply.payload))
      (fun _ => On b (Posts a₀ reply.header.encode max reply.payload)) ⟨a₀, b⟩ := by
  have hsteady : Steady (On b (Posts a₀ reply.header.encode max reply.payload)) :=
    steady_on b fun _ _ h ha => h.later ha
  have hsent : ((sendHeader reply.header.encode max).andThen fun _ => sendSource reply.payload).Sure
      (On b (Posts a₀ reply.header.encode max reply.payload))
      (fun r q => On b (Posts a₀ reply.header.encode max reply.payload) q ∧
        (r = .ok () → Source.failure? reply.payload = none ∧ ∃ framed,
          frameHeader reply.header.encode max = .ok framed ∧
            a₀.Says (framed ++ Source.data reply.payload) q.standing)) ⟨a₀, b⟩ := by
    refine (sure_sendHeader a₀ b _ max reply.payload).andThen (fun _ h => h) (fun x q h => ?_)
      fun e q h => ⟨h.1,by simp⟩
    obtain ⟨⟨rfl,-⟩,hok⟩ := h
    obtain ⟨framed,hf,hw⟩ := hok rfl
    refine (sure_sendSource hf hw).mono (fun _ h => h) fun r q' h => ⟨h.1,fun hr => ?_⟩
    exact ⟨(h.2 hr).1,framed,hf,(h.2 hr).2⟩
  refine hsent.bind (fun _ h => h) fun r q h => ?_
  obtain ⟨hposts,hok⟩ := h
  apply Sure.notes
  cases r with
  | error e => exact hposts
  | ok x =>
    obtain ⟨hwhole,framed,hf,hall⟩ := hok rfl
    obtain ⟨a',b'⟩ := q
    obtain rfl := hposts.1
    have hposts' (q : Post) (h : On b' (a₀.Sends (framed ++ Source.data reply.payload)
        (Source.failure? reply.payload = none)) q) :
        On b' (Posts a₀ reply.header.encode max reply.payload) q := ⟨h.1,.inr ⟨framed,hf,h.2⟩⟩
    change ((ask .finish).andThen fun _ => ask .flush).Sure _ _ _
    exact (sure_finish hall hwhole).andThen hposts' (fun x q h => sure_flush hsteady (hposts' q h))
      fun e q h => hposts' q h

section Reading

variable {α : Type} {reader : Json.Reader α} {r : Except Error α} {P : Standing → Prop}

theorem sure_receiveExact (a : Standing) (b : Bool) (count : Nat) :
    (receiveExact count).Sure (On b (Missing count a))
      (fun r => On b (Pieced count a r)) ⟨a, b⟩ := by
  refine ⟨.gather count [],rfl,fun r a' hg => ?_,fun t' a' hb hw => ?_⟩
  · cases hg with
    | gathered whole h => exact ⟨rfl,.whole whole h⟩
    | short less h => exact ⟨rfl,.short less h⟩
    | ungathered lost h => exact ⟨rfl,.lost lost h⟩
  · cases hb with
    | gather h => exact ⟨rfl,_,Nat.lt_add_of_pos_right hw,h⟩

theorem sure_scan (reader : Json.Reader α) (max : Nat) (a : Standing) (b : Bool) :
    (receiveHeader reader max).Sure (On b (Scanning reader max a))
      (fun r => On b (Scanned reader max a r)) ⟨a, b⟩ := by
  refine (sure_receiveExact a b lengthSize).andThen ?_ (fun length q h => ?_) fun e q h => ?_
  · rintro q ⟨hb,got,hlt,h⟩
    exact ⟨hb,got,scanHeader_of_lt hlt,h⟩
  · obtain ⟨a₁,b⟩ := q
    obtain ⟨rfl,hpiece⟩ := h
    cases hpiece with
    | whole hlength h₁ =>
      have hscan (text : Bytes) : scanHeader reader max (length ++ text) = _ :=
        scanHeader_append hlength
      dsimp only
      split
      · rename_i hmax
        have hlarge := hscan []
        rw [if_pos hmax,List.append_nil] at hlarge
        exact ⟨rfl,.whole hlarge h₁⟩
      · rename_i hmax
        have hpart {text : Bytes} (hlt : text.length < Bytes.toWord length) :
            scanHeader reader max (length ++ text) = none := by
          rw [hscan,if_neg hmax,if_pos hlt]
        refine (sure_receiveExact a₁ b _).andThen ?_ (fun text q h => ?_) fun e q h => ?_
        · rintro q ⟨hb,text,hlt,h₂⟩
          exact ⟨hb,_,hpart hlt,h₁.take_trans h₂⟩
        · obtain ⟨hb,hpiece⟩ := h
          cases hpiece with
          | whole htext h₂ =>
            have hwhole := hscan text
            rw [if_neg hmax,if_neg (by omega),← htext,List.take_length,List.drop_length,
              decodeHeader] at hwhole
            cases hread : Json.whole reader text <;> rw [hread] at hwhole <;>
              exact ⟨hb,.whole hwhole (h₁.take_trans h₂)⟩
        · obtain ⟨hb,hpiece⟩ := h
          cases hpiece with
          | short hlt h₂ => exact ⟨hb,.truncated (hpart hlt) (h₁.take_see_trans h₂)⟩
          | lost gone h₂ =>
            rw [h₁.readable,h₁.abandoned] at gone
            exact ⟨hb,.lost gone (h₁.take_trans h₂)⟩
  · obtain ⟨hb,hpiece⟩ := h
    cases hpiece with
    | short hlt h => exact ⟨hb,.truncated (scanHeader_of_lt hlt) h⟩
    | lost gone h => exact ⟨hb,.lost gone h⟩

theorem sure_receiveHeader (reader : Json.Reader α) (max : Nat)
    (hs : ∀ got a', (a.take got).Ages a' ∨ (a.take got).see.Ages a' → P a') :
    (receiveHeader reader max).Sure (On b P)
      (fun r q => On b P q ∧
        ∀ x, r = .ok x → ∃ bytes, Heads reader x bytes ∧ a.Reads bytes q.standing) ⟨a, b⟩ := by
  refine (sure_scan reader max a b).mono ?_ fun r q h => ?_
  · rintro q ⟨hb,got,-,h⟩
    exact ⟨hb,hs got _ (.inl h)⟩
  obtain ⟨hb,hscanned⟩ := h
  cases hscanned with
  | @whole _ got _ scan h =>
    refine ⟨⟨hb,hs got _ (.inl h)⟩,fun x hx => ?_⟩
    subst hx
    refine ⟨got,heads_of_scan scan,?_⟩
    simpa using (a.reads_take got).trans h.reads
  | truncated _ h => exact ⟨⟨hb,hs _ _ (.inr h)⟩,by simp⟩
  | lost _ h => exact ⟨⟨hb,hs _ _ (.inl h)⟩,by simp⟩

end Reading

theorem sure_exchange (header : RequestHeader) (source : Option Source) (oneway : Bool) (max : Nat)
    (hs : a.Silent) :
    (exchange header source oneway max).Sure (On b (PostedOn a.direction header.encode max source))
      (fun r q => On b (PostedOn a.direction header.encode max source) q ∧
        (r = .ok none → oneway = true) ∧ ∀ h, r = .ok (some h) → oneway = false ∧
          ∃ bytes, Heads ResponseHeader.reader h bytes ∧ a.Reads bytes q.standing) ⟨a, b⟩ := by
  have hposted {q : Post} (h : On b (Posts a header.encode max source) q) :
      On b (PostedOn a.direction header.encode max source) q :=
    ⟨h.1,h.2.reads.direction,h.2.posted hs⟩
  have hsteady : Steady (On b (PostedOn a.direction header.encode max source)) :=
    steady_on b fun _ _ h ha => h.later ha
  refine (sure_sendHeader a b _ max source).andThen (fun _ => hposted) (fun x q₁ h => ?_)
    fun e q₁ h => ⟨hposted h.1,by simp,by simp⟩
  obtain ⟨a₁,b₁⟩ := q₁
  obtain ⟨⟨rfl,-⟩,hok⟩ := h
  obtain ⟨framed,hf,hw⟩ := hok rfl
  refine (sure_sendSource hf hw).andThen (fun _ => hposted) (fun x q₂ h => ?_)
    fun e q₂ h => ⟨hposted h.1,by simp,by simp⟩
  obtain ⟨a₂,b₂⟩ := q₂
  obtain ⟨⟨rfl,-⟩,hsent⟩ := h
  obtain ⟨hwhole,hall⟩ := hsent rfl
  have hposts (q : Post) (h : On b₂ (a.Sends (framed ++ Source.data source)
      (Source.failure? source = none)) q) : On b₂ (Posts a header.encode max source) q :=
    ⟨h.1,.inr ⟨framed,hf,h.2⟩⟩
  refine (sure_finish hall hwhole).andThen (fun q h => hposted (hposts q h)) (fun x q₃ h => ?_)
    fun e q₃ h => ⟨hposted (hposts q₃ h),by simp,by simp⟩
  have hposted₃ := hposted (hposts q₃ h)
  cases oneway with
  | true =>
    exact (sure_flush hsteady hposted₃).andThen (fun _ h => h) (fun x q h => ⟨h,by simp,by simp⟩)
      fun e q h => ⟨h,by simp,by simp⟩
  | false =>
    have hsafe (got : Bytes) (a' : Standing)
        (h : (q₃.standing.take got).Ages a' ∨ (q₃.standing.take got).see.Ages a') :
        PostedOn a.direction header.encode max source a' := by
      have hread : PostedOn a.direction header.encode max source (q₃.standing.take got) :=
        hposted₃.2.of_eq rfl rfl rfl
      have hend : PostedOn a.direction header.encode max source (q₃.standing.take got).see :=
        hposted₃.2.of_eq rfl rfl rfl
      exact h.elim hread.later hend.later
    have hreads := (hposts q₃ h).2.reads
    obtain ⟨a₃,b₃⟩ := q₃
    obtain rfl := h.1
    refine (sure_receiveHeader ResponseHeader.reader max hsafe).andThen (fun _ h => h)
      (fun h q hr => ⟨hr.1,by simp,fun h' hh => ?_⟩) fun e q hr => ⟨hr.1,by simp,by simp⟩
    cases hh
    obtain ⟨bytes,hheads,hreads'⟩ := hr.2 h rfl
    exact ⟨rfl,bytes,hheads,by simpa using hreads.trans hreads'⟩

end Process

end Rpc

end Multiplex
