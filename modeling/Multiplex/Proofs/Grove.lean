import Multiplex.Token.Basic
import Mathlib.Logic.Relation
import Mathlib.Tactic

/-!
Tokens form a forest. Firing one of them fires those below it that can be reached by steps down to
tokens that somebody holds, and no others.
-/

namespace Multiplex.Tokens

variable {a b i j : Nat} {t : Tokens}

def parent? (t : Tokens) (i : Nat) : Option Nat := t.all[i]?.bind (·.parent)

def children (t : Tokens) (i : Nat) : List Nat := (t.all[i]?.map (·.children)).getD []

def handles (t : Tokens) (i : Nat) : Nat := (t.all[i]?.map (·.handles)).getD 0

def Leads (t : Tokens) (a b : Nat) : Prop := t.parent? b = some a ∧ t.isHeld b = true

def Below (t : Tokens) : Nat → Nat → Prop := Relation.ReflTransGen t.Leads

theorem isFired_eq (t : Tokens) (i : Nat) : t.isFired i = (t.all[i]?.map (·.fired)).getD false := by
  unfold isFired
  cases t.all[i]? <;> rfl

theorem signal_eq (t : Tokens) (i : Nat) : t.signal i = (t.all[i]?.map (·.changes)).getD 0 := by
  unfold signal
  cases t.all[i]? <;> rfl

theorem isHeld_iff : t.isHeld i = true ↔ 0 < t.handles i := by
  unfold isHeld handles
  cases t.all[i]? <;> simp

theorem lt_of_isHeld (h : t.isHeld i = true) : i < t.all.length := by
  by_contra hn
  have hnone : t.all[i]? = none := List.getElem?_eq_none (by omega)
  simp [isHeld,hnone] at h

section Views

variable (t i) {f : Token → Token}

theorem getElem?_modify (j : Nat) :
    (t.modify i f).all[j]? = if i = j then t.all[j]?.map f else t.all[j]? := by
  simp only [modify,List.getElem?_modify]
  split <;> simp

/-- What is seen of a token stays if the change leaves it alone. -/
theorem view_modify {α : Type} (v : Option Token → α) (hf : ∀ p, v (some (f p)) = v (some p))
    (j : Nat) : v (t.modify i f).all[j]? = v t.all[j]? := by
  rw [getElem?_modify]
  split
  · cases t.all[j]? <;> simp [hf]
  · rfl

theorem parent?_modify (hf : ∀ p, (f p).parent = p.parent) (j : Nat) :
    (t.modify i f).parent? j = t.parent? j :=
  t.view_modify i (·.bind (·.parent)) hf j

theorem handles_modify (hf : ∀ p, (f p).handles = p.handles) (j : Nat) :
    (t.modify i f).handles j = t.handles j :=
  t.view_modify i (fun p => (p.map Token.handles).getD 0) hf j

theorem children_modify (hf : ∀ p, (f p).children = p.children) (j : Nat) :
    (t.modify i f).children j = t.children j :=
  t.view_modify i (fun p => (p.map Token.children).getD []) hf j

theorem isFired_modify (hf : ∀ p, (f p).fired = p.fired) (j : Nat) :
    (t.modify i f).isFired j = t.isFired j := by
  rw [isFired_eq,isFired_eq]
  exact t.view_modify i (fun p => (p.map Token.fired).getD false) hf j

theorem signal_modify (hf : ∀ p, (f p).changes = p.changes) (j : Nat) :
    (t.modify i f).signal j = t.signal j := by
  rw [signal_eq,signal_eq]
  exact t.view_modify i (fun p => (p.map Token.changes).getD 0) hf j

theorem children_modify_of_ne (h : i ≠ j) : (t.modify i f).children j = t.children j := by
  rw [children,getElem?_modify,if_neg h,children]

theorem isFired_modify_of_ne (h : i ≠ j) : (t.modify i f).isFired j = t.isFired j := by
  rw [isFired,getElem?_modify,if_neg h,isFired]

theorem signal_modify_of_ne (h : i ≠ j) : (t.modify i f).signal j = t.signal j := by
  rw [signal,getElem?_modify,if_neg h,signal]

theorem isHeld_congr {t t' : Tokens} (h : ∀ i, t'.handles i = t.handles i) (i : Nat) :
    t'.isHeld i = t.isHeld i := by
  rw [Bool.eq_iff_iff,isHeld_iff,isHeld_iff,h]

end Views

/-- The forest as the tokens have it: children are younger, only children are listed, and a token
that has not fired lists all its children that somebody holds. -/
structure Rooted (t : Tokens) : Prop where
  older : ∀ {a b : Nat}, t.parent? b = some a → a < b
  own : ∀ {a b : Nat}, b ∈ t.children a → t.parent? b = some a
  listed : ∀ {a b : Nat}, t.Leads a b → t.isFired a = false → b ∈ t.children a

/-- Children that somebody holds have fired with their parents, those that are `busy` apart. -/
def Followed (t : Tokens) (busy : Nat → Prop) : Prop :=
  ∀ {a b : Nat}, ¬busy a → t.Leads a b → t.isFired a = true → t.isFired b = true

structure Grove (t : Tokens) : Prop extends Rooted t where
  followed : ∀ {a b : Nat}, t.Leads a b → t.isFired a = true → t.isFired b = true

/-- What becomes of the token at `i`: it stays fired, and if it fires those who wait on it are
told. -/
structure Announces (t t' : Tokens) (i : Nat) : Prop where
  fired : t.isFired i = true → t'.isFired i = true
  signal : t.signal i ≤ t'.signal i
  told : t.isFired i = false → t'.isFired i = true → t.signal i < t'.signal i

namespace Announces

variable {t' t'' : Tokens}

theorem of_eq (hf : t'.isFired i = t.isFired i) (hs : t'.signal i = t.signal i) :
    t.Announces t' i := by
  refine ⟨fun hi => hf.trans hi,hs.ge,fun hun hi => ?_⟩
  rw [hf,hun] at hi
  cases hi

theorem trans (h : t.Announces t' i) (h' : t'.Announces t'' i) : t.Announces t'' i := by
  refine ⟨fun hi => h'.fired (h.fired hi),h.signal.trans h'.signal,fun hun hi => ?_⟩
  cases hmid : t'.isFired i with
  | true => exact (h.told hun hmid).trans_le h'.signal
  | false => exact h.signal.trans_lt (h'.told hmid hi)

end Announces

/-- Only who holds the tokens is another. -/
structure Recounts (t t' : Tokens) : Prop where
  parent : ∀ i, t'.parent? i = t.parent? i
  children : ∀ i, t'.children i = t.children i
  fired : ∀ i, t'.isFired i = t.isFired i
  signal : ∀ i, t'.signal i = t.signal i

namespace Recounts

variable {t' t'' : Tokens}

theorem refl (t : Tokens) : t.Recounts t :=
  ⟨fun _ => rfl,fun _ => rfl,fun _ => rfl,fun _ => rfl⟩

theorem trans (h : t.Recounts t') (h' : t'.Recounts t'') : t.Recounts t'' where
  parent i := (h'.parent i).trans (h.parent i)
  children i := (h'.children i).trans (h.children i)
  fired i := (h'.fired i).trans (h.fired i)
  signal i := (h'.signal i).trans (h.signal i)

theorem announces (h : t.Recounts t') (i : Nat) : t.Announces t' i :=
  .of_eq (h.fired i) (h.signal i)

theorem handles (t : Tokens) (i : Nat) (f : Nat → Nat) :
    t.Recounts (t.modify i fun p => { p with handles := f p.handles }) :=
  ⟨t.parent?_modify i fun _ => rfl,t.children_modify i fun _ => rfl,
    t.isFired_modify i fun _ => rfl,t.signal_modify i fun _ => rfl⟩

end Recounts

theorem recounts_release (t : Tokens) (i : Nat) : t.Recounts (t.release i) :=
  .handles t i (· - 1)

theorem recounts_hold (t : Tokens) (i : Nat) : t.Recounts (t.hold i) :=
  .handles t i (· + 1)

section Firing

/-- What firing tokens comes to: nothing but the tokens that fire, and what they list, is
another. -/
structure Spreads (t t' : Tokens) : Prop where
  length : t'.all.length = t.all.length
  parent : ∀ i, t'.parent? i = t.parent? i
  handles : ∀ i, t'.handles i = t.handles i
  announces : ∀ i, t.Announces t' i
  kept : ∀ {i : Nat}, t'.isFired i = false → t'.children i = t.children i
  fewer : ∀ {i b : Nat}, b ∈ t'.children i → b ∈ t.children i

namespace Spreads

variable {t' t'' : Tokens}

theorem refl (t : Tokens) : t.Spreads t :=
  ⟨rfl,fun _ => rfl,fun _ => rfl,fun _ => .of_eq rfl rfl,fun _ => rfl,id⟩

section

variable (h : t.Spreads t')

include h

theorem fired (hi : t.isFired i = true) : t'.isFired i = true := (h.announces i).fired hi

theorem unfired (hi : t'.isFired i = false) : t.isFired i = false := by
  by_contra hn
  have := h.fired (Bool.eq_true_of_not_eq_false hn)
  cases hi.symm.trans this

theorem trans (h' : t'.Spreads t'') : t.Spreads t'' := by
  refine ⟨h'.length.trans h.length,fun i => (h'.parent i).trans (h.parent i),
    fun i => (h'.handles i).trans (h.handles i),fun i => (h.announces i).trans (h'.announces i),?_,
    fun hb => h.fewer (h'.fewer hb)⟩
  intro i hi
  rw [h'.kept hi,h.kept (h'.unfired hi)]

theorem leads : t'.Leads = t.Leads := by
  funext a b
  rw [Leads,Leads,h.parent,isHeld_congr h.handles]

theorem below : t'.Below = t.Below := by
  rw [Below,Below,h.leads]

theorem rooted (hr : t.Rooted) : t'.Rooted := by
  refine ⟨?_,?_,?_⟩
  · intro a b hp
    rw [h.parent] at hp
    exact hr.older hp
  · intro a b hb
    rw [h.parent]
    exact hr.own (h.fewer hb)
  · intro a b hl ha
    rw [h.leads] at hl
    rw [h.kept ha]
    exact hr.listed hl (h.unfired ha)

end

end Spreads

def fire (t : Tokens) (i : Nat) : Tokens := t.modify i Token.fire

theorem isFired_fire (hi : i < t.all.length) : (t.fire i).isFired i = true := by
  have hx : t.all[i]? = some t.all[i] := List.getElem?_eq_getElem hi
  simp [isFired,fire,getElem?_modify,hx,Token.fire,Token.notify]

theorem isFired_fire_of_ne (h : i ≠ j) : (t.fire i).isFired j = t.isFired j :=
  t.isFired_modify_of_ne i h

theorem signal_fire (hi : i < t.all.length) : (t.fire i).signal i = t.signal i + 1 := by
  have hx : t.all[i]? = some t.all[i] := List.getElem?_eq_getElem hi
  simp [signal,fire,getElem?_modify,hx,Token.fire,Token.notify]

theorem announces_fire (hi : i < t.all.length) (j : Nat) : t.Announces (t.fire i) j := by
  by_cases h : i = j
  · subst h
    have hs := signal_fire hi
    exact ⟨fun _ => isFired_fire hi,by omega,fun _ _ => by omega⟩
  · exact .of_eq (isFired_fire_of_ne h) (t.signal_modify_of_ne i h)

theorem spreads_fire (hi : i < t.all.length) : t.Spreads (t.fire i) := by
  refine ⟨by simp [fire,modify],t.parent?_modify i fun _ => rfl,t.handles_modify i fun _ => rfl,
    announces_fire hi,?_,?_⟩
  · intro j hj
    by_cases h : i = j
    · subst h
      cases (isFired_fire hi).symm.trans hj
    · exact t.children_modify_of_ne i h
  · intro j b hb
    by_cases h : i = j
    · subst h
      rw [children,fire,getElem?_modify,if_pos rfl] at hb
      cases hx : t.all[i]? <;> simp [hx,Token.fire,Token.notify] at hb
    · rwa [fire,t.children_modify_of_ne i h] at hb

/-- What firing the token at `i` comes to, while the children of those that are `busy` are not all
told yet. -/
structure Fires (busy : Nat → Prop) (t : Tokens) (i : Nat) (t' : Tokens) : Prop where
  spreads : t.Spreads t'
  followed : t'.Followed busy
  fired : i < t.all.length → t'.isFired i = true
  below : ∀ j, t'.isFired j = true → t.isFired j = true ∨ t.Below i j

theorem fires_children {depth : Nat} {busy : Nat → Prop}
    (one : ∀ {t : Tokens} {c : Nat}, t.Rooted → t.Followed busy → t.all.length ≤ c + depth →
      Fires busy t c (cancelWithin depth t c)) (cs : List Nat) (hr : t.Rooted)
    (hf : t.Followed busy) (hd : ∀ c ∈ cs, t.all.length ≤ c + depth) :
    let t' := cs.foldl (fun t c => if t.isHeld c then cancelWithin depth t c else t) t
    t.Spreads t' ∧ t'.Followed busy ∧
      (∀ c ∈ cs, t.isHeld c = true → t'.isFired c = true) ∧
      ∀ j, t'.isFired j = true → t.isFired j = true ∨ ∃ c ∈ cs, t.isHeld c = true ∧
        t.Below c j := by
  induction cs generalizing t with
  | nil => exact ⟨.refl t,hf,by simp,fun j hj => .inl hj⟩
  | cons c cs ih =>
    rw [List.foldl_cons]
    by_cases hc : t.isHeld c = true
    · rw [if_pos hc]
      have hone := one hr hf (hd c (by simp))
      generalize cancelWithin depth t c = t₁ at hone
      have hs := hone.spreads
      obtain ⟨hs',hf',hall,hback⟩ := ih (hs.rooted hr) hone.followed (by
        intro c' hc'
        rw [hs.length]
        exact hd c' (by simp [hc']))
      refine ⟨hs.trans hs',hf',?_,?_⟩
      · intro c' hc' hheld
        rcases List.mem_cons.mp hc' with rfl | hmem
        · exact hs'.fired (hone.fired (lt_of_isHeld hc))
        · exact hall c' hmem (by rwa [isHeld_congr hs.handles])
      · intro j hj
        rcases hback j hj with hj | ⟨c',hmem,hheld,hb⟩
        · rcases hone.below j hj with hj | hb
          · exact .inl hj
          · exact .inr ⟨c,by simp,hc,hb⟩
        · rw [isHeld_congr hs.handles] at hheld
          rw [hs.below] at hb
          exact .inr ⟨c',by simp [hmem],hheld,hb⟩
    · rw [if_neg hc]
      obtain ⟨hs,hf',hall,hback⟩ := ih hr hf fun c' hc' => hd c' (by simp [hc'])
      refine ⟨hs,hf',?_,?_⟩
      · intro c' hc' hheld
        rcases List.mem_cons.mp hc' with rfl | hmem
        · exact absurd hheld hc
        · exact hall c' hmem hheld
      · intro j hj
        rcases hback j hj with hj | ⟨c',hmem,hx⟩
        · exact .inl hj
        · exact .inr ⟨c',by simp [hmem],hx⟩

/-- Every step down leads to a younger token, so that the depth never runs out. -/
theorem fires_cancelWithin (depth : Nat) {busy : Nat → Prop} (hr : t.Rooted) (hf : t.Followed busy)
    (hd : t.all.length ≤ i + depth) : Fires busy t i (cancelWithin depth t i) := by
  induction depth generalizing busy t i with
  | zero => exact ⟨.refl t,hf,fun hi => by omega,fun j hj => .inl hj⟩
  | succ depth ih =>
    rw [cancelWithin]
    cases hx : t.all[i]? with
    | none =>
      have hlen := List.getElem?_eq_none_iff.mp hx
      exact ⟨.refl t,hf,fun hi => by omega,fun j hj => .inl hj⟩
    | some token =>
      have hi : i < t.all.length := (List.getElem?_eq_some_iff.mp hx).1
      have hfired : t.isFired i = token.fired := by simp [isFired,hx]
      have hlist : t.children i = token.children := by simp [children,hx]
      dsimp only
      by_cases hk : token.fired = true
      · rw [if_pos hk]
        exact ⟨.refl t,hf,fun _ => hfired.trans hk,fun j hj => .inl hj⟩
      · rw [if_neg hk]
        change Fires busy t i (token.children.foldl _ (t.fire i))
        have hun : t.isFired i = false := hfired.trans (Bool.eq_false_of_not_eq_true hk)
        have hs := spreads_fire hi
        -- the token itself is busy while its children are told one after the other
        have hf₁ : (t.fire i).Followed (fun a => busy a ∨ a = i) := by
          intro a b ha hl hfa
          obtain ⟨hb,hne⟩ := not_or.mp ha
          rw [hs.leads] at hl
          rw [isFired_fire_of_ne (Ne.symm hne)] at hfa
          exact hs.fired (hf hb hl hfa)
        have hown (c : Nat) (hc : c ∈ token.children) : t.parent? c = some i :=
          hr.own (hlist ▸ hc)
        obtain ⟨hs',hf',hall,hback⟩ := fires_children (fun hr hf hd => ih hr hf hd)
          token.children (hs.rooted hr) hf₁ (by
            intro c hc
            have hlt := hr.older (hown c hc)
            have hlen := hs.length
            omega)
        generalize token.children.foldl _ (t.fire i) = t' at hs' hf' hall hback ⊢
        have hboth := hs.trans hs'
        refine ⟨hboth,?_,fun _ => hs'.fired (isFired_fire hi),?_⟩
        · intro a b ha hl hfa
          by_cases hai : a = i
          · subst hai
            rw [hboth.leads] at hl
            refine hall b (hlist ▸ hr.listed hl hun) ?_
            rw [isHeld_congr hs.handles]
            exact hl.2
          · exact hf' (by simp [ha,hai]) hl hfa
        · intro j hj
          rcases hback j hj with hj | ⟨c,hc,hheld,hb⟩
          · by_cases hji : i = j
            · subst hji
              exact .inr .refl
            · rw [isFired_fire_of_ne hji] at hj
              exact .inl hj
          · rw [isHeld_congr hs.handles] at hheld
            rw [hs.below] at hb
            exact .inr (.head ⟨hown c hc,hheld⟩ hb)

end Firing

namespace Grove

variable {t' : Tokens}

theorem cancelled (h : t.Grove) (r : Nat) : Fires (fun _ => False) t r (t.cancel r) :=
  fires_cancelWithin _ h.toRooted (fun _ => h.followed) (by omega)

theorem cancel (h : t.Grove) (r : Nat) : (t.cancel r).Grove :=
  ⟨(h.cancelled r).spreads.rooted h.toRooted,(h.cancelled r).followed id⟩

/-- Firing a token fires those below it that are held all the way down, and no others. -/
theorem isFired_cancel (h : t.Grove) {r : Nat} (hr : r < t.all.length) (i : Nat) :
    (t.cancel r).isFired i = true ↔ t.isFired i = true ∨ t.Below r i := by
  have hc := h.cancelled r
  have hg := h.cancel r
  constructor
  · exact hc.below i
  · rintro (hi | hb)
    · exact hc.spreads.fired hi
    · rw [← hc.spreads.below] at hb
      induction hb with
      | refl => exact hc.fired hr
      | tail _ hl ih => exact hg.followed hl ih

theorem parent_lt (h : t.Grove) (hp : t.parent? b = some a) : a < t.all.length := by
  have hb : b < t.all.length := by
    by_contra hn
    rw [parent?,List.getElem?_eq_none (by omega)] at hp
    cases hp
  exact (h.older hp).trans hb

theorem loosen (h : t.Grove) (hr : t.Recounts t')
    (hh : ∀ i, t'.isHeld i = true → t.isHeld i = true) : t'.Grove := by
  have hl {a b : Nat} (hx : t'.Leads a b) : t.Leads a b := ⟨hr.parent b ▸ hx.1,hh b hx.2⟩
  refine ⟨⟨?_,?_,?_⟩,?_⟩
  · intro a b hx
    rw [hr.parent] at hx
    exact h.older hx
  · intro a b hx
    rw [hr.children] at hx
    rw [hr.parent]
    exact h.own hx
  · intro a b hx hfa
    rw [hr.fired] at hfa
    rw [hr.children]
    exact h.listed (hl hx) hfa
  · intro a b hx hfa
    rw [hr.fired] at hfa ⊢
    exact h.followed (hl hx) hfa

theorem release (h : t.Grove) (i : Nat) : (t.release i).Grove := by
  refine h.loosen (t.recounts_release i) ?_
  intro j hj
  rw [isHeld_iff] at hj ⊢
  refine lt_of_lt_of_le hj ?_
  rw [handles,Tokens.release,getElem?_modify,handles]
  split
  · cases t.all[j]? <;> simp
  · exact le_rfl

theorem hold (h : t.Grove) (hi : t.isHeld i = true) : (t.hold i).Grove := by
  refine h.loosen (t.recounts_hold i) ?_
  intro j hj
  by_cases hij : i = j
  · exact hij ▸ hi
  · rw [isHeld_iff] at hj ⊢
    rwa [handles,Tokens.hold,getElem?_modify,if_neg hij] at hj

end Grove

/-- A token joins. Children that are held stay listed, and no others are listed but the new one. -/
structure Joins (t : Tokens) (x : Token) (t' : Tokens) : Prop where
  parent : ∀ i, t'.parent? i = if i = t.all.length then x.parent else t.parent? i
  handles : ∀ i, t'.handles i = if i = t.all.length then x.handles else t.handles i
  fired : ∀ i, t'.isFired i = if i = t.all.length then x.fired else t.isFired i
  signal : ∀ i, t'.signal i = if i = t.all.length then x.changes else t.signal i
  kept : ∀ {a b : Nat}, b ∈ t.children a → t.isHeld b = true → b ∈ t'.children a
  only : ∀ {a b : Nat}, b ∈ t'.children a → b ∈ t.children a ∨ b = t.all.length ∧ x.parent = some a

section Joins

variable {x : Token} {p : Nat} {t' : Tokens}

def add (t : Tokens) (x : Token) : Tokens := ⟨t.all ++ [x]⟩

theorem getElem?_add (t : Tokens) (x : Token) (i : Nat) :
    (t.add x).all[i]? = if i = t.all.length then some x else t.all[i]? := by
  rw [add,List.getElem?_append]
  rcases Nat.lt_trichotomy i t.all.length with hlt | heq | hgt
  · simp [hlt,Nat.ne_of_lt hlt]
  · simp [heq]
  · have hzero : i - t.all.length ≠ 0 := by omega
    rw [if_neg (by omega),if_neg (by omega),List.getElem?_singleton,if_neg hzero,
      List.getElem?_eq_none (by omega)]

theorem view_add {α : Type} (t : Tokens) (x : Token) (v : Option Token → α) (i : Nat) :
    v (t.add x).all[i]? = if i = t.all.length then v (some x) else v t.all[i]? := by
  rw [getElem?_add]
  split <;> rfl

theorem children_add (t : Tokens) (hx : x.children = []) (i : Nat) :
    (t.add x).children i = t.children i := by
  refine (t.view_add x (fun y => (y.map Token.children).getD []) i).trans ?_
  split
  · rename_i hi
    rw [children,hi,List.getElem?_eq_none le_rfl]
    exact hx
  · rfl

theorem joins_add (t : Tokens) (hx : x.children = []) : t.Joins x (t.add x) where
  parent := t.view_add x (·.bind (·.parent))
  handles := t.view_add x fun y => (y.map Token.handles).getD 0
  fired i := by
    rw [isFired_eq,isFired_eq]
    exact t.view_add x (fun y => (y.map Token.fired).getD false) i
  signal i := by
    rw [signal_eq,signal_eq]
    exact t.view_add x (fun y => (y.map Token.changes).getD 0) i
  kept hb _ := t.children_add hx _ ▸ hb
  only hb := .inl (t.children_add hx _ ▸ hb)

theorem child_fst (t : Tokens) (p : Nat) : (t.child p).1 = t.all.length := by
  unfold child
  dsimp only
  split <;> rfl

/-- The token that `p` gets as its child. -/
def childOf (t : Tokens) (p : Nat) : Token :=
  let token : Token := { parent := some p }
  if t.isFired p then token.fire else token

theorem parent_childOf : (t.childOf p).parent = some p := by
  unfold childOf
  split <;> rfl

theorem handles_childOf : (t.childOf p).handles = 1 := by
  unfold childOf
  split <;> rfl

theorem fired_childOf : (t.childOf p).fired = t.isFired p := by
  unfold childOf
  split
  · exact Eq.symm ‹_›
  · exact (Bool.eq_false_of_not_eq_true ‹_›).symm

theorem changes_childOf (h : (t.childOf p).fired = true) : 0 < (t.childOf p).changes := by
  rw [fired_childOf] at h
  simp [childOf,h,Token.fire,Token.notify]

theorem joins_child (hp : p < t.all.length) : t.Joins (t.childOf p) (t.child p).2 ∧
    (t.isFired p = false → t.all.length ∈ (t.child p).2.children p) := by
  cases hf : t.isFired p with
  | true =>
    have heq : (t.child p).2 = t.add (t.childOf p) := by simp [child,childOf,hf,add]
    exact ⟨heq ▸ t.joins_add (by simp [childOf,hf,Token.fire,Token.notify]),nofun⟩
  | false =>
    have hchild : t.childOf p = { parent := some p } := by simp [childOf,hf]
    rw [hchild]
    have hadd := t.joins_add (x := { parent := some p }) rfl
    have hself : (t.child p).2.children p = (t.children p).filter t.isHeld ++ [t.all.length] := by
      simp [child,hf,children,getElem?_modify,List.getElem?_append_left hp,
        List.getElem?_eq_getElem hp]
    have heq : (t.child p).2 = (t.add { parent := some p }).modify p fun q =>
        { q with children := q.children.filter t.isHeld ++ [t.all.length] } := by
      simp [child,hf,add]
    have hother {a : Nat} (ha : p ≠ a) : (t.child p).2.children a = t.children a := by
      rw [heq,children_modify_of_ne _ _ ha,children_add _ rfl]
    refine ⟨⟨fun i => ?_,fun i => ?_,fun i => ?_,fun i => ?_,?_,?_⟩,fun _ => by simp [hself]⟩
    · rw [heq,parent?_modify _ _ (by simp),hadd.parent]
    · rw [heq,handles_modify _ _ (by simp),hadd.handles]
    · rw [heq,isFired_modify _ _ (by simp),hadd.fired]
    · rw [heq,signal_modify _ _ (by simp),hadd.signal]
    · intro a b hb hheld
      by_cases ha : p = a
      · subst ha
        rw [hself]
        exact List.mem_append_left _ (List.mem_filter.mpr ⟨hb,hheld⟩)
      · rwa [hother ha]
    · intro a b hb
      by_cases ha : p = a
      · subst ha
        rw [hself,List.mem_append,List.mem_singleton] at hb
        exact hb.imp (fun hx => (List.mem_filter.mp hx).1) fun hx => ⟨hx,rfl⟩
      · exact .inl (hother ha ▸ hb)

/-- A token that joins has fired if its parent has, and is listed there if it has not. -/
theorem Grove.joins (h : t.Grove) (hj : t.Joins x t') (hp : ∀ a, x.parent = some a →
    a < t.all.length ∧ x.fired = t.isFired a ∧
      (t.isFired a = false → t.all.length ∈ t'.children a)) :
    t'.Grove := by
  have hparent {a b : Nat} (hx : t'.parent? b = some a) : a < t.all.length ∧
      (b = t.all.length ∧ x.parent = some a ∨ b ≠ t.all.length ∧ t.parent? b = some a) := by
    rw [hj.parent] at hx
    split at hx
    · exact ⟨(hp a hx).1,.inl ⟨‹_›,hx⟩⟩
    · exact ⟨h.parent_lt hx,.inr ⟨‹_›,hx⟩⟩
  have hfired {a : Nat} (ha : a < t.all.length) : t'.isFired a = t.isFired a := by
    rw [hj.fired,if_neg (Nat.ne_of_lt ha)]
  have hheld {b : Nat} (hb : b ≠ t.all.length) (hx : t'.isHeld b = true) : t.isHeld b = true := by
    rwa [isHeld_iff,hj.handles,if_neg hb,← isHeld_iff] at hx
  refine ⟨⟨fun {a b} hx => ?_,fun {a b} hb => ?_,fun {a b} hl ha => ?_⟩,fun {a b} hl ha => ?_⟩
  · obtain ⟨ha,⟨rfl,-⟩ | ⟨-,hx⟩⟩ := hparent hx
    · exact ha
    · exact h.older hx
  · rw [hj.parent]
    rcases hj.only hb with hb | ⟨rfl,hx⟩
    · have hx := h.own hb
      rw [if_neg,hx]
      rintro rfl
      rw [parent?,List.getElem?_eq_none le_rfl] at hx
      cases hx
    · rw [if_pos rfl,hx]
  · obtain ⟨hlt,⟨rfl,hx⟩ | ⟨hb,hx⟩⟩ := hparent hl.1 <;> rw [hfired hlt] at ha
    · exact (hp a hx).2.2 ha
    · exact hj.kept (h.listed ⟨hx,hheld hb hl.2⟩ ha) (hheld hb hl.2)
  · obtain ⟨hlt,⟨rfl,hx⟩ | ⟨hb,hx⟩⟩ := hparent hl.1 <;> rw [hfired hlt] at ha <;> rw [hj.fired]
    · rw [if_pos rfl,(hp a hx).2.1,ha]
    · rw [if_neg hb]
      exact h.followed ⟨hx,hheld hb hl.2⟩ ha

/-- Nobody can have waited on a token that was not there. -/
theorem Joins.announces (hj : t.Joins x t') (hx : x.fired = true → 0 < x.changes) (i : Nat) :
    t.Announces t' i := by
  by_cases hi : i = t.all.length
  · subst hi
    have hf : t.isFired t.all.length = false := by simp [isFired]
    have hs : t.signal t.all.length = 0 := by simp [Tokens.signal]
    refine ⟨fun h => ?_,by omega,fun _ h => ?_⟩
    · cases hf.symm.trans h
    · rw [hj.fired,if_pos rfl] at h
      rw [hj.signal,if_pos rfl,hs]
      exact hx h
  · exact .of_eq (by rw [hj.fired,if_neg hi]) (by rw [hj.signal,if_neg hi])

theorem Grove.new (h : t.Grove) : t.new.2.Grove := h.joins (t.joins_add rfl) (by simp)

theorem Grove.child (h : t.Grove) (hp : p < t.all.length) : (t.child p).2.Grove := by
  obtain ⟨hj,hlisted⟩ := joins_child hp
  refine h.joins hj ?_
  intro a ha
  cases parent_childOf.symm.trans ha
  exact ⟨hp,fired_childOf,hlisted⟩

end Joins

end Multiplex.Tokens
