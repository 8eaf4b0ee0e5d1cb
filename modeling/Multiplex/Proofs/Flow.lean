import Multiplex.Bytes
import Mathlib.Tactic

/-!
One direction of a stream: what its sender has sent, what its receiver has taken in, the data on the
way and the credit on the way back.
-/

namespace Multiplex

/-- The data of one frame, and whether it is the last. -/
structure Chunk where
  last : Bool
  data : Bytes

namespace Chunk

def pieces (t : List Chunk) : List Bytes := t.map (·.data)

def load (t : List Chunk) : Nat := (pieces t).flatten.length

@[simp]
theorem pieces_append (t t' : List Chunk) : pieces (t ++ t') = pieces t ++ pieces t' :=
  List.map_append

@[simp]
theorem pieces_cons (c : Chunk) (t : List Chunk) : pieces (c :: t) = c.data :: pieces t := rfl

@[simp]
theorem pieces_nil : pieces [] = [] := rfl

theorem pieces_eq_nil {t : List Chunk} (h : pieces t = []) : t = [] := List.map_eq_nil_iff.mp h

@[simp]
theorem load_append (t t' : List Chunk) : load (t ++ t') = load t + load t' := by
  simp [load]

@[simp]
theorem load_cons (c : Chunk) (t : List Chunk) : load (c :: t) = c.data.length + load t := by
  simp [load]

@[simp]
theorem load_nil : load [] = 0 := rfl

end Chunk

open Chunk

/-- What the sender of one direction of a stream knows of it. -/
structure Outflow where
  sent : List Bytes
  ended : Bool
  /-- Whether credit is still taken over. -/
  able : Bool
  /-- Whether nothing that was sent was taken back. -/
  whole : Bool
  credit : Nat

/-- What the receiver of one direction of a stream knows of it. -/
structure Inflow where
  received : List Bytes
  ended : Bool
  /-- Whether chunks are still taken in. -/
  listening : Bool
  /-- How much may still come. -/
  room : Nat

/-- Sender and receiver are in step, with the chunks `t` on the way and credit for `u` bytes on the
way back. -/
structure Flow (window : Nat) (o : Outflow) (i : Inflow) (t : List Chunk) (u : Nat) : Prop where
  order : i.received <+: o.sent
  due : i.listening = true → i.received ++ pieces t <+: o.sent
  whole : i.listening = true → o.whole = true → i.received ++ pieces t = o.sent
  last : ∀ p c q, t = p ++ c :: q → c.last = true → q = []
  closing : ∀ c ∈ t, c.last = true →
    o.ended = true ∧ (i.listening = true → i.received ++ pieces t = o.sent)
  closed : i.ended = true → o.ended = true ∧ i.received = o.sent
  done : i.listening = true → i.ended = true → t = []
  pending : o.ended = true → o.whole = true → i.listening = true → i.ended = false →
    ∃ c ∈ t, c.last = true
  balance : o.able = true → i.listening = true → i.ended = false → o.credit + load t + u = i.room
  bounded : i.listening = true → i.ended = false → load t ≤ i.room
  held : o.able = true → o.credit + u ≤ window

namespace Flow

variable {window u n : Nat} {o : Outflow} {i : Inflow} {t : List Chunk} {c : Chunk}

theorem initial (window : Nat) (able whole listening : Bool) :
    Flow window ⟨[], false, able, whole, window⟩ ⟨[], false, listening, window⟩ [] 0 := by
  refine ⟨List.nil_prefix,?_,?_,?_,?_,?_,?_,?_,?_,?_,?_⟩ <;> simp

section

variable (h : Flow window o i t u)

include h

theorem weaken (able whole : Bool) (ha : able = true → o.able = true)
    (hw : whole = true → o.whole = true) : Flow window { o with able, whole } i t u :=
  ⟨h.order,h.due,fun hl hx => h.whole hl (hw hx),h.last,h.closing,h.closed,h.done,
    fun he hx => h.pending he (hw hx),fun hx => h.balance (ha hx),h.bounded,
    fun hx => h.held (ha hx)⟩

theorem not_last (he : o.ended = false) (hc : c ∈ t) : c.last = false := by
  by_contra hx
  have := (h.closing c hc (Bool.eq_true_of_not_eq_false hx)).1
  cases he.symm.trans this

theorem not_ended (he : o.ended = false) : i.ended = false := by
  by_contra hx
  have := (h.closed (Bool.eq_true_of_not_eq_false hx)).1
  cases he.symm.trans this

theorem last_append (he : o.ended = false) (c : Chunk) :
    ∀ p c' q, t ++ [c] = p ++ c' :: q → c'.last = true → q = [] := by
  intro p c' q hx hl
  rcases List.eq_nil_or_concat q with rfl | ⟨q',c'',rfl⟩
  · rfl
  · have ht : t = p ++ c' :: q' := by
      rw [List.concat_eq_append,← List.cons_append,← List.append_assoc] at hx
      exact (List.append_inj' hx rfl).1
    have := h.not_last he (c := c') (by rw [ht]; simp)
    cases hl.symm.trans this

theorem send (data : Bytes) (ha : o.able = true) (hw : o.whole = true) (he : o.ended = false)
    (hc : data.length ≤ o.credit) :
    Flow window { o with sent := o.sent ++ [data], credit := o.credit - data.length } i
      (t ++ [⟨false, data⟩]) u := by
  have hall (hl : i.listening = true) :
      i.received ++ pieces (t ++ [⟨false, data⟩]) = o.sent ++ [data] := by
    rw [pieces_append,← List.append_assoc,h.whole hl hw]
    rfl
  have hsum (hl : i.listening = true) (hn : i.ended = false) := h.balance ha hl hn
  refine ⟨?_,?_,fun hl _ => hall hl,h.last_append he _,?_,?_,?_,?_,?_,?_,?_⟩
  · exact h.order.trans (List.prefix_append _ _)
  · exact fun hl => hall hl ▸ List.prefix_rfl
  · intro c hc' hlast
    rcases List.mem_append.mp hc' with hm | hm
    · cases (h.not_last he hm).symm.trans hlast
    · rw [List.mem_singleton.mp hm] at hlast
      cases hlast
  · intro hx
    cases (h.not_ended he).symm.trans hx
  · intro _ hx
    cases (h.not_ended he).symm.trans hx
  · intro hx
    cases (show o.ended = true from hx).symm.trans he
  · intro _ hl hn
    have := hsum hl hn
    simp
    omega
  · intro hl hn
    have := hsum hl hn
    simp
    omega
  · intro _
    have := h.held ha
    simp
    omega

theorem finish (ha : o.able = true) (hw : o.whole = true) (he : o.ended = false) :
    Flow window { o with sent := o.sent ++ [[]], ended := true } i (t ++ [⟨true, []⟩]) u := by
  have hall (hl : i.listening = true) :
      i.received ++ pieces (t ++ [⟨true, []⟩]) = o.sent ++ [[]] := by
    rw [pieces_append,← List.append_assoc,h.whole hl hw]
    rfl
  refine ⟨?_,?_,fun hl _ => hall hl,h.last_append he _,?_,?_,?_,?_,?_,?_,?_⟩
  · exact h.order.trans (List.prefix_append _ _)
  · exact fun hl => hall hl ▸ List.prefix_rfl
  · exact fun _ _ _ => ⟨rfl,hall⟩
  · intro hx
    cases (h.not_ended he).symm.trans hx
  · intro _ hx
    cases (h.not_ended he).symm.trans hx
  · exact fun _ _ _ _ => ⟨⟨true, []⟩,by simp,rfl⟩
  · intro _ hl hn
    simpa using h.balance ha hl hn
  · intro hl hn
    simpa using h.bounded hl hn
  · exact fun _ => h.held ha

/-- The sender takes back or loses chunks that are still with it. -/
theorem cut (t' : List Chunk) (ht : t' <+: t) :
    Flow window { o with able := false, whole := false } i t' u := by
  obtain ⟨r,rfl⟩ := ht
  refine ⟨h.order,?_,?_,?_,?_,h.closed,?_,?_,?_,?_,?_⟩
  · intro hl
    refine List.IsPrefix.trans ⟨pieces r,?_⟩ (h.due hl)
    rw [pieces_append,List.append_assoc]
  · intro _ hx
    cases hx
  · intro p c q hx hl
    have := h.last p c (q ++ r) (by rw [hx]; simp) hl
    exact (List.append_eq_nil_iff.mp this).1
  · intro c hc hl
    -- behind the last chunk there was nothing to lose
    obtain ⟨p,q,rfl⟩ := List.append_of_mem hc
    have hr := (List.append_eq_nil_iff.mp (h.last p c (q ++ r) (by simp) hl)).2
    subst hr
    simpa using h.closing c (by simp) hl
  · intro hl hx
    exact (List.append_eq_nil_iff.mp (h.done hl hx)).1
  · intro _ hx
    cases hx
  · intro hx
    cases hx
  · intro hl hn
    have := h.bounded hl hn
    rw [load_append] at this
    omega
  · intro hx
    cases hx

theorem cut_nil (hs : o.sent = []) (he : o.ended = false) {t' : List Chunk} (ht : t' <+: t) :
    Flow window o i t' u := by
  obtain ⟨r,rfl⟩ := ht
  have hnil (hl : i.listening = true) : t' = [] ∧ r = [] := by
    have := h.due hl
    rw [hs,List.prefix_nil,List.append_eq_nil_iff] at this
    exact List.append_eq_nil_iff.mp (pieces_eq_nil this.2)
  refine ⟨h.order,?_,?_,?_,?_,h.closed,?_,?_,?_,?_,h.held⟩
  · intro hl
    have := h.due hl
    rwa [(hnil hl).2,List.append_nil] at this
  · intro hl hw
    have := h.whole hl hw
    rwa [(hnil hl).2,List.append_nil] at this
  · intro p c q hx hl
    have := h.last p c (q ++ r) (by rw [hx]; simp) hl
    exact (List.append_eq_nil_iff.mp this).1
  · intro c hc hl
    have := h.not_last he (c := c) (List.mem_append_left _ hc)
    cases hl.symm.trans this
  · exact fun hl _ => (hnil hl).1
  · intro hx
    cases he.symm.trans hx
  · intro ha hl hn
    have := h.balance ha hl hn
    rwa [(hnil hl).2,List.append_nil] at this
  · intro hl hn
    have := h.bounded hl hn
    rwa [(hnil hl).2,List.append_nil] at this

end

theorem grant (h : Flow window o i t (n + u)) :
    Flow window { o with credit := o.credit + n } i t u := by
  refine { h with balance := ?_, held := ?_ }
  · intro ha hl hn
    have := h.balance ha hl hn
    simp only
    omega
  · intro ha
    have := h.held ha
    simp only
    omega

theorem ignore (h : Flow window o i t (n + u)) (ha : o.able = true → n = 0) :
    Flow window o i t u := by
  refine { h with balance := ?_, held := ?_ }
  · intro hx hl hn
    have := h.balance hx hl hn
    have := ha hx
    omega
  · intro hx
    have := h.held hx
    omega

theorem update (h : Flow window o i t u)
    (hn : n = 0 ∨ (i.listening = true ∧ i.ended = false ∧ i.room + n ≤ window)) :
    Flow window o { i with room := i.room + n } t (u + n) := by
  refine { h with balance := ?_, bounded := ?_, held := ?_ }
  · intro ha hl he
    have := h.balance ha hl he
    simp only
    omega
  · intro hl he
    have := h.bounded hl he
    simp only
    omega
  · intro ha
    rcases hn with rfl | ⟨hl,he,hw⟩
    · exact h.held ha
    · have := h.balance ha hl he
      omega

/-- The receiver stops taking chunks in. Credit that it gave may be lost. -/
theorem shut (h : Flow window o i t u) (room u' : Nat) (hu : u' ≤ u) :
    Flow window o { i with listening := false, room } t u' := by
  refine ⟨h.order,?_,?_,h.last,?_,h.closed,?_,?_,?_,?_,?_⟩
  · intro hx
    cases hx
  · intro hx
    cases hx
  · exact fun c hc hl => ⟨(h.closing c hc hl).1,fun hx => by cases hx⟩
  · intro hx
    cases hx
  · intro _ _ hx
    cases hx
  · intro _ hx
    cases hx
  · intro hx
    cases hx
  · intro ha
    have := h.held ha
    omega

theorem drop (h : Flow window o i (c :: t) u) (hl : i.listening = false) : Flow window o i t u := by
  have no {P : Prop} (hx : i.listening = true) : P := by
    cases hl.symm.trans hx
  refine ⟨h.order,fun hx => no hx,fun hx => no hx,?_,?_,h.closed,fun hx => no hx,
    fun _ _ hx => no hx,fun _ hx => no hx,fun hx => no hx,h.held⟩
  · intro p c' q hx
    exact h.last (c :: p) c' q (by rw [hx]; rfl)
  · intro c' hc hlast
    exact ⟨(h.closing c' (List.mem_cons_of_mem _ hc) hlast).1,fun hx => no hx⟩

theorem receive (h : Flow window o i (c :: t) u) (room n : Nat) (listening : Bool)
    (hl : i.listening = true) (he : i.ended = false)
    (hroom : c.last = false → room + c.data.length = i.room + n)
    (hn : n = 0 ∨ (c.last = false ∧ room ≤ window)) :
    Flow window o ⟨i.received ++ [c.data], c.last, listening, room⟩ t (u + n) := by
  have hdue := h.due hl
  rw [pieces_cons,List.append_cons] at hdue
  have hsum (ha : o.able = true) := h.balance ha hl he
  have hbound := h.bounded hl he
  simp only [load_cons] at hsum hbound
  have hend (hx : c.last = true) : t = [] := h.last [] c t rfl hx
  have hall (hx : o.whole = true) : i.received ++ [c.data] ++ pieces t = o.sent := by
    rw [← List.append_cons]
    exact h.whole hl hx
  refine ⟨(List.prefix_append _ _).trans hdue,fun _ => hdue,fun _ => hall,?_,?_,?_,?_,?_,?_,?_,?_⟩
  · intro p c' q hx
    exact h.last (c :: p) c' q (by rw [hx]; rfl)
  · intro c' hc hlast
    obtain ⟨h₁,h₂⟩ := h.closing c' (List.mem_cons_of_mem _ hc) hlast
    refine ⟨h₁,fun _ => ?_⟩
    have := h₂ hl
    rwa [pieces_cons,List.append_cons] at this
  · intro hx
    obtain ⟨h₁,h₂⟩ := h.closing c (by simp) hx
    refine ⟨h₁,?_⟩
    have := h₂ hl
    rw [hend hx] at this
    simpa using this
  · exact fun _ => hend
  · intro h₁ h₂ _ hx
    obtain ⟨c',hc,hlast⟩ := h.pending h₁ h₂ hl he
    rcases List.mem_cons.mp hc with rfl | hc
    · cases (show c'.last = false from hx).symm.trans hlast
    · exact ⟨c',hc,hlast⟩
  · intro ha _ hx
    have h₁ := hsum ha
    have h₂ := hroom hx
    simp only
    omega
  · intro _ hx
    have h₂ := hroom hx
    simp only
    omega
  · intro ha
    rcases hn with rfl | ⟨hx,hw⟩
    · exact h.held ha
    · have h₁ := hsum ha
      have h₂ := hroom hx
      omega

end Flow

end Multiplex
