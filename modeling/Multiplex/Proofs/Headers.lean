import Multiplex.Rpc.Header
import Multiplex.Proofs.Codec
import Multiplex.Proofs.Text

/-!
Headers are read back as they were written: texts, byte strings, fields, and what is made of them.
-/

namespace Multiplex

namespace Json

variable {α σ : Type} {b : UInt8}

/-- Whether a reader takes `a` off the front of every text that starts with `text`. -/
def Reads (reader : Reader α) (text : Bytes) (a : α) : Prop :=
  ∀ rest, reader (text ++ rest) = some (a, rest)

theorem next_cons (hb : isBlank b = false) (rest : Bytes) : next (b :: rest) = some (b, rest) := by
  simp [next,skipBlanks,hb]

theorem punctuation_cons (hb : isBlank b = false) (rest : Bytes) :
    punctuation b (b :: rest) = some rest := by
  simp [punctuation,next_cons hb]

theorem punctuation_ne {c : UInt8} (hc : isBlank c = false) (hne : c ≠ b) (rest : Bytes) :
    punctuation b (c :: rest) = none := by
  simp [punctuation,next_cons hc,hne]

section String

theorem unicodeEscape_control (b : UInt8) (hb : b < 0x20) (rest : Bytes) :
    unicodeEscape (0x30 :: 0x30 :: hexLetter (b.toNat / 16) :: hexLetter (b.toNat % 16) :: rest) =
      some ([b], rest) := by
  have hlt : b.toNat < 32 := hb
  have hdigits : ∀ n < 32,
      hexDigits? 0x30 0x30 (hexLetter (n / 16)) (hexLetter (n % 16)) = some n := by
    decide +kernel
  have hpoint : ∀ n < 32, codePoint n = [UInt8.ofNat n] := by decide +kernel
  have htrailing : isTrailing b.toNat = false := by
    simp only [isTrailing,Bool.and_eq_false_iff,decide_eq_false_iff_not]
    omega
  have hleading : isLeading b.toNat = false := by
    simp only [isLeading,Bool.and_eq_false_iff,decide_eq_false_iff_not]
    omega
  simp [unicodeEscape,hexDigits,hdigits _ hlt,htrailing,hleading,hpoint _ hlt]

theorem stringBytes_escapeByte (fuel : Nat) (done : Bytes) (b : UInt8) (rest : Bytes) :
    stringBytes (fuel + 1) done (escapeByte b ++ rest) = stringBytes fuel (b :: done) rest := by
  unfold escapeByte
  -- seven bytes have short escapes
  iterate 7
    split
    · rename_i h
      simp [stringBytes,escape,simpleEscape?,h]
  split
  · rename_i h
    simp [stringBytes,escape,unicodeEscape_control b h]
  · rename_i hquote hback _ _ _ _ _ hlow
    simp [stringBytes,hquote,hback,hlow]

theorem stringBytes_escaped (content : Bytes) (fuel : Nat) (done rest : Bytes)
    (hf : content.length < fuel) :
    stringBytes fuel done (content.flatMap escapeByte ++ 0x22 :: rest) =
      some (done.reverse ++ content, rest) := by
  induction content generalizing fuel done with
  | nil =>
    obtain ⟨fuel,rfl⟩ := Nat.exists_eq_succ_of_ne_zero (by omega : fuel ≠ 0)
    simp [stringBytes]
  | cons b content ih =>
    obtain ⟨fuel,rfl⟩ := Nat.exists_eq_succ_of_ne_zero (by omega : fuel ≠ 0)
    have hlt : content.length < fuel := by
      simp only [List.length_cons] at hf
      omega
    rw [List.flatMap_cons,List.append_assoc,stringBytes_escapeByte,ih fuel (b :: done) hlt]
    simp

theorem length_escapeByte (b : UInt8) : 0 < (escapeByte b).length := by
  unfold escapeByte
  repeat' split
  all_goals simp

theorem length_le_escaped (content : Bytes) :
    content.length ≤ (content.flatMap escapeByte).length := by
  induction content with
  | nil => simp
  | cons b content ih =>
    have := length_escapeByte b
    simp only [List.flatMap_cons,List.length_append,List.length_cons]
    omega

theorem openedString_written (s : String) :
    Reads openedString ((Bytes.ofString s).flatMap escapeByte ++ [0x22]) s := by
  intro rest
  have hlen := length_le_escaped (Bytes.ofString s)
  have hread := stringBytes_escaped (Bytes.ofString s)
    ((Bytes.ofString s).flatMap escapeByte ++ 0x22 :: rest).length [] rest
    (by simp only [List.length_append,List.length_cons]; omega)
  unfold openedString
  rw [List.append_assoc,List.singleton_append,hread]
  simp [Bytes.toString?_ofString]

theorem string_writeString (s : String) : Reads string (writeString s) s := by
  intro rest
  have hread := openedString_written s rest
  unfold string writeString
  rw [List.cons_append,punctuation_cons (by decide)]
  exact hread

end String

section Array

/-- Whether a text goes on with what separates or ends the elements of an array. -/
def Parted (rest : Bytes) : Prop := ∃ b tail, rest = b :: tail ∧ (b = 0x2c ∨ b = 0x5d)

theorem writeByte_spec (b : UInt8) : (writeByte b).all isDigit = true ∧
    (writeByte b).foldl (fun n d => n * 10 + (d.toNat - 0x30)) 0 = b.toNat ∧
    ∃ d more, writeByte b = d :: more ∧ isDigit d = true ∧ (d = 0x30 → more = []) := by
  have hall : ∀ n : Fin 256, (writeByte (UInt8.ofNat n)).all isDigit = true ∧
      (writeByte (UInt8.ofNat n)).headD 0 ∈ (writeByte (UInt8.ofNat n)) ∧
      ((writeByte (UInt8.ofNat n)).headD 0 = 0x30 → (writeByte (UInt8.ofNat n)).tail = []) ∧
      (writeByte (UInt8.ofNat n)).foldl (fun n d => n * 10 + (d.toNat - 0x30)) 0 = n.val := by
    decide +kernel
  obtain ⟨hdigits,hmem,hzero,hvalue⟩ := hall ⟨b.toNat,b.toNat_lt⟩
  rw [UInt8.ofNat_toNat] at hdigits hmem hzero hvalue
  refine ⟨hdigits,hvalue,?_⟩
  cases hw : writeByte b with
  | nil => simp [hw] at hmem
  | cons d more =>
    rw [hw] at hzero hdigits
    exact ⟨d,more,rfl,List.all_eq_true.mp hdigits d List.mem_cons_self,hzero⟩

theorem not_blank_of_isDigit {d : UInt8} (h : isDigit d = true) : isBlank d = false := by
  simp only [isDigit,Bool.and_eq_true,decide_eq_true_eq,UInt8.le_iff_toNat_le] at h
  have hlow : 0x30 ≤ d.toNat := h.1
  simp only [isBlank,Bool.or_eq_false_iff,decide_eq_false_iff_not]
  refine ⟨⟨⟨?_,?_⟩,?_⟩,?_⟩ <;> rintro rfl <;> revert hlow <;> decide

theorem byte_writeByte (b : UInt8) {rest : Bytes} (hr : Parted rest) :
    byte (writeByte b ++ rest) = some (b, rest) := by
  obtain ⟨hdigits,hvalue,d,more,hw,hd,hzero⟩ := writeByte_spec b
  obtain ⟨p,tail,rfl,hp⟩ := hr
  have hstop : isDigit p = false := by rcases hp with rfl | rfl <;> decide
  have hskip : skipBlanks (writeByte b ++ p :: tail) = writeByte b ++ p :: tail := by
    simp [skipBlanks,hw,not_blank_of_isDigit hd]
  have htake : (writeByte b ++ p :: tail).takeWhile isDigit = writeByte b := by
    rw [List.takeWhile_append_of_pos fun x hx => List.all_eq_true.mp hdigits x hx]
    simp [hstop]
  have hdrop : (writeByte b ++ p :: tail).dropWhile isDigit = p :: tail := by
    rw [List.dropWhile_append_of_pos fun x hx => List.all_eq_true.mp hdigits x hx]
    simp [hstop]
  have hsmall : ¬255 < b.toNat := by
    have := b.toNat_lt
    omega
  have hlead : (decide (d = 0x30) && !more.isEmpty) = false := by
    by_cases h : d = 0x30
    · simp [hzero h]
    · simp [h]
  unfold byte
  simp only [hskip,htake,hdrop,hvalue]
  rw [hw]
  simp only [hlead,hsmall,decide_false,Bool.or_self,Bool.false_eq_true,if_false]
  rcases hp with rfl | rfl <;> simp

theorem commas_cons_cons (x y : Bytes) (items : List Bytes) :
    commas (x :: y :: items) = x ++ 0x2c :: commas (y :: items) := by
  simp [commas,List.intercalate]

theorem length_commas (items : List Bytes) : items.length ≤ (commas items).length + 1 := by
  induction items with
  | nil => simp
  | cons x items ih =>
    cases items with
    | nil => simp
    | cons y items =>
      rw [commas_cons_cons]
      simp only [List.length_cons,List.length_append] at ih ⊢
      omega

theorem elements_written {element : Reader α} {write : α → Bytes}
    (h : ∀ a rest, Parted rest → element (write a ++ rest) = some (a, rest)) (a : α) (as : List α)
    (fuel : Nat) (done : List α) (rest : Bytes) (hf : as.length < fuel) :
    elements element fuel done (commas ((a :: as).map write) ++ 0x5d :: rest) =
      some (done.reverse ++ a :: as, rest) := by
  induction as generalizing a fuel done with
  | nil =>
    obtain ⟨fuel,rfl⟩ := Nat.exists_eq_succ_of_ne_zero (by omega : fuel ≠ 0)
    have hread := h a (0x5d :: rest) ⟨_,_,rfl,.inr rfl⟩
    have hone : commas ([a].map write) = write a := by simp [commas,List.intercalate]
    rw [hone,elements,hread]
    simp [next_cons (b := 0x5d) (by decide)]
  | cons b as ih =>
    obtain ⟨fuel,rfl⟩ := Nat.exists_eq_succ_of_ne_zero (by omega : fuel ≠ 0)
    have hlt : as.length < fuel := by
      simp only [List.length_cons] at hf
      omega
    have hread := h a (0x2c :: (commas ((b :: as).map write) ++ 0x5d :: rest)) ⟨_,_,rfl,.inl rfl⟩
    rw [List.map_cons,List.map_cons,commas_cons_cons,List.append_assoc,List.cons_append,
      ← List.map_cons,elements,hread]
    simp only [next_cons (b := 0x2c) (by decide)]
    rw [ih b fuel (a :: done) hlt]
    simp

theorem array_writeBytes (bs : Bytes) : Reads (array byte) (writeBytes bs) bs := by
  intro rest
  unfold array writeBytes writeArray
  rw [List.cons_append,punctuation_cons (by decide),List.append_assoc,List.singleton_append]
  cases bs with
  | nil =>
    have hclose : punctuation 0x5d (0x5d :: rest) = some rest := punctuation_cons (by decide) rest
    simp [commas,List.intercalate,hclose]
  | cons b bs =>
    obtain ⟨-,-,d,more,hw,hd,-⟩ := writeByte_spec b
    have hne : d ≠ 0x5d := by
      rintro rfl
      revert hd
      decide
    have hfirst : ∃ tail, commas ((b :: bs).map writeByte) ++ 0x5d :: rest = d :: tail := by
      cases bs with
      | nil => exact ⟨_,by simp [commas,List.intercalate,hw]; rfl⟩
      | cons c bs => exact ⟨_,by rw [List.map_cons,List.map_cons,commas_cons_cons,hw]; rfl⟩
    have hlen := length_commas ((b :: bs).map writeByte)
    have hread := elements_written (fun a rest hr => byte_writeByte a hr) b bs
      (commas ((b :: bs).map writeByte) ++ 0x5d :: rest).length [] rest (by
        simp only [List.length_map,List.length_cons] at hlen
        simp only [List.length_append,List.length_cons]
        omega)
    obtain ⟨tail,htail⟩ := hfirst
    have hopen : punctuation 0x5d (commas ((b :: bs).map writeByte) ++ 0x5d :: rest) = none := by
      rw [htail]
      exact punctuation_ne (not_blank_of_isDigit hd) hne tail
    simp only [hopen]
    exact hread

end Array

section Object

variable {member : String → σ → Reader σ} {s s' : σ} {items : List (String × Bytes)}

/-- Members are taken into the state one after another, each whatever follows it. -/
inductive Fills (member : String → σ → Reader σ) : σ → List (String × Bytes) → σ → Prop
  | nil (s : σ) : Fills member s [] s
  | cons {s s' s'' : σ} {key : String} {text : Bytes} {items : List (String × Bytes)}
      (head : Reads (member key s) text s') (tail : Fills member s' items s'') :
      Fills member s ((key, text) :: items) s''

def writeMembers (items : List (String × Bytes)) : Bytes :=
  commas (items.map fun (key, text) => writeMember key text)

theorem members_written {key : String} {text : Bytes} (h : Fills member s ((key, text) :: items) s')
    (fuel : Nat) (rest : Bytes) (hf : items.length < fuel) :
    members member fuel s (writeMembers ((key, text) :: items) ++ 0x7d :: rest) =
      some (s', rest) := by
  induction items generalizing s key text fuel with
  | nil =>
    obtain ⟨fuel,rfl⟩ := Nat.exists_eq_succ_of_ne_zero (by omega : fuel ≠ 0)
    cases h with
    | cons head tail =>
      cases tail
      have hone : writeMembers [(key, text)] = writeMember key text := by
        simp [writeMembers,commas,List.intercalate]
      rw [hone,writeMember,List.append_assoc,List.cons_append,members,string_writeString key]
      simp only [punctuation_cons (b := 0x3a) (by decide)]
      rw [head (0x7d :: rest)]
      simp [next_cons (b := 0x7d) (by decide)]
  | cons item items ih =>
    obtain ⟨key',text'⟩ := item
    obtain ⟨fuel,rfl⟩ := Nat.exists_eq_succ_of_ne_zero (by omega : fuel ≠ 0)
    have hlt : items.length < fuel := by
      simp only [List.length_cons] at hf
      omega
    cases h with
    | cons head tail =>
      have hmore : writeMembers ((key, text) :: (key', text') :: items) =
          writeMember key text ++ 0x2c :: writeMembers ((key', text') :: items) := by
        simp only [writeMembers,List.map_cons,commas_cons_cons]
      rw [hmore,writeMember,List.append_assoc,List.append_assoc,List.cons_append,List.cons_append,
        members,string_writeString key]
      simp only [punctuation_cons (b := 0x3a) (by decide)]
      rw [head]
      simp only [next_cons (b := 0x2c) (by decide)]
      exact ih tail fuel hlt

theorem openedObject_written (h : Fills member s items s') :
    Reads (openedObject member s) (writeMembers items ++ [0x7d]) s' := by
  intro rest
  rw [List.append_assoc,List.singleton_append]
  unfold openedObject
  cases items with
  | nil =>
    cases h
    have hclose : punctuation 0x7d (0x7d :: rest) = some rest := punctuation_cons (by decide) rest
    simp [writeMembers,commas,List.intercalate,hclose]
  | cons item items =>
    obtain ⟨key,text⟩ := item
    have hfirst : ∃ tail, writeMembers ((key, text) :: items) ++ 0x7d :: rest = 0x22 :: tail := by
      cases items with
      | nil => exact ⟨_,by simp [writeMembers,commas,List.intercalate,writeMember,writeString]; rfl⟩
      | cons item items =>
        apply Exists.intro
        simp only [writeMembers,List.map_cons,commas_cons_cons,writeMember,writeString]
        rfl
    have hlen := length_commas (((key, text) :: items).map fun (key, text) => writeMember key text)
    have hfuel : ((key, text) :: items).length ≤
        (writeMembers ((key, text) :: items) ++ 0x7d :: rest).length := by
      simp only [List.length_map,List.length_cons] at hlen
      simp only [writeMembers,List.length_append,List.length_cons]
      omega
    have hread := members_written h _ rest hfuel
    obtain ⟨tail,htail⟩ := hfirst
    have hopen : punctuation 0x7d (writeMembers ((key, text) :: items) ++ 0x7d :: rest) = none := by
      rw [htail]
      exact punctuation_ne (by decide) (by decide) tail
    simp only [hopen]
    exact hread

end Object

end Json

namespace Rpc

open Json

section Fields

variable {κ : Type} [DecidableEq κ]

/-- Setting all that is in `f`, key by key. -/
theorem get_foldl_set (f g : Fields κ) (keys : List κ) (k : κ) :
    ((keys.filterMap fun k => (f.get k).map (k, ·)).foldl (fun g (e : κ × Bytes) => g.set e.1 e.2)
      g).get k = if k ∈ keys then (f.get k).or (g.get k) else g.get k := by
  induction keys generalizing g with
  | nil => simp
  | cons key keys ih =>
    cases hv : f.get key with
    | none =>
      rw [List.filterMap_cons_none (by simp [hv]),ih]
      by_cases hk : k = key
      · simp [hk,hv]
      · simp [hk]
    | some value =>
      rw [List.filterMap_cons_some (b := (key, value)) (by simp [hv]),List.foldl_cons,ih]
      by_cases hk : k = key
      · simp [hk,hv,Fields.set,Fields.update]
      · simp [hk,Fields.set,Fields.update]

variable [FieldKey κ]

theorem Fields.fills_entries {member : String → Fields κ → Reader (Fields κ)}
    (hm : ∀ k value g, Reads (member (FieldKey.name k) g) (writeBytes value) (g.set k value))
    {entries : List (κ × Bytes)} {g g' : Fields κ}
    (hg : entries.foldl (fun g (e : κ × Bytes) => g.set e.1 e.2) g = g') :
    Fills member g (entries.map fun e => (FieldKey.name e.1, writeBytes e.2)) g' := by
  induction entries generalizing g with
  | nil =>
    obtain rfl := hg
    exact .nil g
  | cons e entries ih => exact .cons (hm e.1 e.2 g) (ih hg)

theorem Fields.reader_encode (hname : ∀ k : κ, FieldKey.ofName? κ (FieldKey.name k) = some k)
    (f : Fields κ) : Reads Fields.reader f.encode f := by
  have hall : f.entries.foldl (fun g (e : κ × Bytes) => g.set e.1 e.2) Fields.empty = f := by
    have hget (k : κ) : (f.entries.foldl (fun g (e : κ × Bytes) => g.set e.1 e.2)
        Fields.empty).get k = f.get k := by
      have hmem : k ∈ (FieldKey.all : List κ) := List.mem_of_find?_eq_some (hname k)
      rw [Fields.entries,get_foldl_set,if_pos hmem]
      simp [Fields.empty]
    exact congrArg Fields.mk (funext hget)
  have htext : f.encode = 0x7b ::
      (writeMembers (f.entries.map fun e => (FieldKey.name e.1, writeBytes e.2)) ++ [0x7d]) := by
    simp [Fields.encode,writeObject,writeMembers,List.map_map,Function.comp_def]
  intro rest
  unfold Fields.reader object
  rw [htext,List.cons_append,punctuation_cons (by decide)]
  refine openedObject_written (Fields.fills_entries (fun k value g rest => ?_) hall) rest
  simp [hname,array_writeBytes value rest]

theorem requestKey_ofName (k : RequestKey) :
    FieldKey.ofName? RequestKey (FieldKey.name k) = some k := by
  cases k <;> decide

theorem responseKey_ofName (k : ResponseKey) :
    FieldKey.ofName? ResponseKey (FieldKey.name k) = some k := by
  cases k <;> decide

end Fields

theorem once_none {α : Type} {reader : Reader α} {text : Bytes} {a : α} (h : Reads reader text a) :
    Reads (once none reader) text (some a) := by
  intro rest
  simp [once,h rest]

theorem RequestHeader.whole_encode (h : RequestHeader) :
    whole RequestHeader.reader h.encode = some h := by
  have hfills : Fills Partial.member {} [("path", writeString h.path),
      ("operation", writeString h.operation), ("fields", h.fields.encode)]
      ⟨some h.path,some h.operation,some h.fields⟩ := by
    have hpath : Reads (Partial.member "path" {}) (writeString h.path) ⟨some h.path,none,none⟩ := by
      intro rest
      have := once_none (string_writeString h.path) rest
      simp [Partial.member,this]
    have hoperation : Reads (Partial.member "operation" ⟨some h.path,none,none⟩)
        (writeString h.operation) ⟨some h.path,some h.operation,none⟩ := by
      intro rest
      have := once_none (string_writeString h.operation) rest
      simp [Partial.member,this]
    have hfields : Reads (Partial.member "fields" ⟨some h.path,some h.operation,none⟩)
        h.fields.encode ⟨some h.path,some h.operation,some h.fields⟩ := by
      intro rest
      have := once_none (Fields.reader_encode requestKey_ofName h.fields) rest
      simp [Partial.member,this]
    exact .cons hpath (.cons hoperation (.cons hfields (.nil _)))
  have hread := openedObject_written hfills []
  have htext : h.encode = 0x7b :: (writeMembers [("path", writeString h.path),
      ("operation", writeString h.operation), ("fields", h.fields.encode)] ++ [0x7d]) := by
    simp [encode,writeObject,writeMembers]
  rw [List.append_nil] at hread
  unfold whole reader
  rw [htext,next_cons (by decide)]
  simp [hread,Partial.finish,skipBlanks]

theorem Status.reader_encode (s : Status) : Reads Status.reader s.encode s := by
  intro rest
  have hname : Status.ofName? s.name = some s := by cases s <;> decide
  have hread := openedString_written s.name rest
  unfold Status.reader Json.name Status.encode writeString
  rw [List.cons_append,next_cons (by decide)]
  simp only [hread]
  simp [hname]

theorem nullable_writeString (s : String) : Reads (nullable string) (writeString s) (some s) := by
  intro rest
  have hread := string_writeString s rest
  unfold nullable
  have hnext : ∃ tail, next (writeString s ++ rest) = some (0x22, tail) := by
    exact ⟨_,next_cons (by decide) _⟩
  obtain ⟨tail,hnext⟩ := hnext
  simp [hnext,hread]

theorem ResponseHeader.whole_of_fills {items : List (String × Bytes)} {p : Partial}
    {h : ResponseHeader} (hf : Fills Partial.member {} items p) (hp : p.finish = some h) :
    whole ResponseHeader.reader (0x7b :: (writeMembers items ++ [0x7d])) = some h := by
  have hread := openedObject_written hf []
  rw [List.append_nil] at hread
  unfold whole reader
  rw [next_cons (by decide)]
  simp [hread,hp,skipBlanks]

theorem ResponseHeader.whole_encode (h : ResponseHeader) :
    whole ResponseHeader.reader h.encode = some h := by
  obtain ⟨status,message,fields⟩ := h
  have hstatus (p : Partial) (hp : p.status = none) :
      Reads (Partial.member "status" p) status.encode { p with status := some status } := by
    intro rest
    have := once_none (Status.reader_encode status) rest
    simp [Partial.member,hp,this]
  have hfields (p : Partial) (hp : p.fields = none) :
      Reads (Partial.member "fields" p) fields.encode { p with fields := some fields } := by
    intro rest
    have := once_none (Fields.reader_encode responseKey_ofName fields) rest
    simp [Partial.member,hp,this]
  cases message with
  | none =>
    have hfills : Fills Partial.member {} [("status", status.encode), ("fields", fields.encode)]
        ⟨some status,none,some fields⟩ :=
      .cons (hstatus {} rfl) (.cons (hfields ⟨some status,none,none⟩ rfl) (.nil _))
    exact whole_of_fills hfills rfl
  | some m =>
    have hmessage : Reads (Partial.member "error_message" ⟨some status,none,none⟩) (writeString m)
        ⟨some status,some (some m),none⟩ := by
      intro rest
      have := once_none (nullable_writeString m) rest
      simp [Partial.member,this]
    have hfills : Fills Partial.member {} [("status", status.encode),
        ("error_message", writeString m), ("fields", fields.encode)]
        ⟨some status,some (some m),some fields⟩ :=
      .cons (hstatus {} rfl)
        (.cons hmessage (.cons (hfields ⟨some status,some (some m),none⟩ rfl) (.nil _)))
    exact whole_of_fills hfills rfl

end Rpc

end Multiplex
