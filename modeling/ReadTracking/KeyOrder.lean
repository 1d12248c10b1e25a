/-!
# Orders for table keys

A table keeps its entries in one order of its keys, so every listing of it has one answer.
`KeyOrder` is that order: strict, transitive, and deciding between any two different keys.
Texts compare by code point, which is also the order of their UTF-8 bytes.  The order of a
structure is pulled back along an injective map into pairs, options and lists.
-/

set_option autoImplicit false

namespace ReadTracking

class KeyOrder (α : Type) where
  before : α → α → Prop
  decBefore : DecidableRel before
  irrefl : ∀ a, ¬ before a a
  trans : ∀ {a b c}, before a b → before b c → before a c
  connected : ∀ {a b}, ¬ before a b → ¬ before b a → a = b

namespace KeyOrder

variable {α β : Type}

instance [KeyOrder α] (a b : α) : Decidable (before a b) := decBefore a b

theorem asymm [KeyOrder α] {a b : α} (h : before a b) : ¬ before b a :=
  fun h' => irrefl a (trans h h')

theorem ne_of_before [KeyOrder α] {a b : α} (h : before a b) : a ≠ b :=
  fun e => irrefl b (e ▸ h)

abbrev onInjective [KeyOrder β] (f : α → β) (inj : ∀ {a b}, f a = f b → a = b) : KeyOrder α where
  before a b := before (f a) (f b)
  decBefore a b := decBefore (f a) (f b)
  irrefl a := irrefl (f a)
  trans := trans
  connected h h' := inj (connected h h')

instance nat : KeyOrder Nat where
  before a b := a < b
  decBefore a b := Nat.decLt a b
  irrefl := Nat.lt_irrefl
  trans := Nat.lt_trans
  connected h h' := Nat.le_antisymm (Nat.not_lt.1 h') (Nat.not_lt.1 h)

instance byte : KeyOrder UInt8 :=
  onInjective UInt8.toNat UInt8.toNat_inj.1

instance text : KeyOrder String where
  before a b := a < b
  decBefore a b := inferInstanceAs (Decidable (a < b))
  irrefl := String.lt_irrefl
  trans := String.lt_trans
  connected h h' := String.le_antisymm h' h

def optionBefore [KeyOrder α] : Option α → Option α → Prop
  | none, none => False
  | none, some _ => True
  | some _, none => False
  | some a, some b => before a b

instance option [KeyOrder α] : KeyOrder (Option α) where
  before := optionBefore
  decBefore a b := by
    cases a <;> cases b <;> simp only [optionBefore] <;> infer_instance
  irrefl a := by cases a <;> simp [optionBefore, irrefl]
  trans {a b c} h h' := by
    cases a <;> cases b <;> cases c <;> simp_all [optionBefore]
    exact trans h h'
  connected {a b} h h' := by
    cases a <;> cases b <;> simp_all [optionBefore]
    exact connected h h'

def pairBefore [KeyOrder α] [KeyOrder β] (p q : α × β) : Prop :=
  before p.1 q.1 ∨ ¬ before q.1 p.1 ∧ before p.2 q.2

theorem pairBefore_iff [KeyOrder α] [KeyOrder β] (p q : α × β) :
    pairBefore p q ↔ before p.1 q.1 ∨ p.1 = q.1 ∧ before p.2 q.2 := by
  constructor
  · rintro (h | ⟨h, h'⟩)
    · exact .inl h
    · by_cases e : before p.1 q.1
      · exact .inl e
      · exact .inr ⟨connected e h, h'⟩
  · rintro (h | ⟨h, h'⟩)
    · exact .inl h
    · exact .inr ⟨h ▸ irrefl _, h'⟩

instance pair [KeyOrder α] [KeyOrder β] : KeyOrder (α × β) where
  before := pairBefore
  decBefore p q := by unfold pairBefore; infer_instance
  irrefl p h := by
    rcases h with h | ⟨_, h⟩
    · exact irrefl _ h
    · exact irrefl _ h
  trans {p q r} h h' := by
    rw [pairBefore_iff] at *
    rcases h with h | ⟨e, h⟩ <;> rcases h' with h' | ⟨e', h'⟩
    · exact .inl (trans h h')
    · exact .inl (e' ▸ h)
    · exact .inl (e ▸ h')
    · exact .inr ⟨e.trans e', trans h h'⟩
  connected {p q} h h' := by
    rw [pairBefore_iff] at h h'
    have e : p.1 = q.1 := connected (fun k => h (.inl k)) (fun k => h' (.inl k))
    have e' : p.2 = q.2 :=
      connected (fun k => h (.inr ⟨e, k⟩)) (fun k => h' (.inr ⟨e.symm, k⟩))
    exact Prod.ext e e'

def listBefore [KeyOrder α] : List α → List α → Prop
  | [], [] => False
  | [], _ :: _ => True
  | _ :: _, [] => False
  | a :: as, b :: bs => before a b ∨ ¬ before b a ∧ listBefore as bs

instance decListBefore [KeyOrder α] : DecidableRel (listBefore (α := α))
  | [], [] => inferInstanceAs (Decidable False)
  | [], _ :: _ => inferInstanceAs (Decidable True)
  | _ :: _, [] => inferInstanceAs (Decidable False)
  | a :: as, b :: bs =>
    have := decListBefore as bs
    inferInstanceAs (Decidable (before a b ∨ ¬ before b a ∧ listBefore as bs))

theorem listBefore_irrefl [KeyOrder α] : ∀ as : List α, ¬ listBefore as as
  | [] => id
  | a :: as => fun h => h.elim (irrefl a) fun h => listBefore_irrefl as h.2

theorem listBefore_trans [KeyOrder α] :
    ∀ {as bs cs : List α}, listBefore as bs → listBefore bs cs → listBefore as cs
  | [], [], _, h, _ => h.elim
  | [], _ :: _, [], _, h => h.elim
  | [], _ :: _, _ :: _, _, _ => trivial
  | _ :: _, [], _, h, _ => h.elim
  | _ :: _, _ :: _, [], _, h => h.elim
  | a :: _, b :: _, c :: _, h, h' => by
    rcases h with h | ⟨h, t⟩ <;> rcases h' with h' | ⟨h', t'⟩
    · exact .inl (trans h h')
    · by_cases e : before b c
      · exact .inl (trans h e)
      · exact .inl (connected e h' ▸ h)
    · by_cases e : before a b
      · exact .inl (trans e h')
      · exact .inl (connected e h ▸ h')
    · by_cases e : before a c
      · exact .inl e
      · refine .inr ⟨fun k => ?_, listBefore_trans t t'⟩
        by_cases f : before b c
        · exact h (trans f k)
        · exact h (connected f h' ▸ k)

theorem listBefore_connected [KeyOrder α] :
    ∀ {as bs : List α}, ¬ listBefore as bs → ¬ listBefore bs as → as = bs
  | [], [], _, _ => rfl
  | [], _ :: _, h, _ => (h trivial).elim
  | _ :: _, [], _, h => (h trivial).elim
  | a :: as, b :: bs, h, h' => by
    have e : a = b := connected (fun k => h (.inl k)) (fun k => h' (.inl k))
    subst e
    have e : as = bs := listBefore_connected
      (fun k => h (.inr ⟨irrefl _, k⟩)) (fun k => h' (.inr ⟨irrefl _, k⟩))
    rw [e]

instance list [KeyOrder α] : KeyOrder (List α) where
  before := listBefore
  decBefore := decListBefore
  irrefl := listBefore_irrefl
  trans := listBefore_trans
  connected := listBefore_connected

end KeyOrder

end ReadTracking
