import Mathlib.Data.List.Forall2
import GenericIR.Decimal

/-! Unique reading. Two lists are read apart if equal wholes have equal parts, however each list
goes on. What has no end of its own ends where elements of another kind begin, so that the kind
of element which must not follow is part of the notion. Texts are read apart as lists of
characters, pages as lists of lines. -/
namespace GenericIR

variable {α β : Type} {p q : α → Prop} {x y x' y' : List α} {P Q : Prop}

theorem map_eq_map_of_related {γ : Type} {f : β → γ} {R : β → β → Prop} {xs ys : List β}
    (h : List.Forall₂ R xs ys) (hR : ∀ x ∈ xs, ∀ y, R x y → f x = f y) : xs.map f = ys.map f := by
  induction h with
  | nil => rfl
  | @cons x y xs ys hxy _ ih =>
    rw [List.forall_mem_cons] at hR
    rw [List.map_cons, List.map_cons, hR.1 y hxy, ih hR.2]

theorem map_eq_map_of_forall₂ {γ : Type} {f : β → γ} {xs ys : List β}
    (h : List.Forall₂ (fun b c => f b = f c) xs ys) : xs.map f = ys.map f :=
  map_eq_map_of_related h fun _ _ _ hxy => hxy

/-- The first element is of the kind `p`. -/
def Begins (p : α → Prop) (x : List α) : Prop :=
  ∃ a ∈ x.head?, p a

@[simp] theorem not_begins_nil : ¬ Begins p [] := by
  simp [Begins]

@[simp] theorem not_begins_false : ¬ Begins (fun _ => False) x := by
  simp [Begins]

@[simp] theorem begins_cons {a : α} : Begins p (a :: x) ↔ p a := by
  simp [Begins]

theorem Begins.imp (h : Begins p x) (hpq : ∀ a, p a → q a) : Begins q x := by
  obtain ⟨a, ha, hp⟩ := h
  exact ⟨a, ha, hpq a hp⟩

theorem Begins.of_mem {l : List α} [DecidablePred q] (h : Begins (· ∈ l) x)
    (hl : l.all fun a => q a) : Begins q x :=
  h.imp fun a ha => of_decide_eq_true (List.all_eq_true.1 hl a ha)

theorem Begins.not_begins (h : Begins p x) (hpq : ∀ a, p a → ¬ q a) : ¬ Begins q x := by
  obtain ⟨a, ha, hp⟩ := h
  rintro ⟨b, hb, hq⟩
  obtain rfl := Option.mem_unique ha hb
  exact hpq a hp hq

theorem Begins.append (h : Begins p x) (r : List α) : Begins p (x ++ r) := by
  obtain ⟨a, ha, hp⟩ := h
  exact ⟨a, by simp_all, hp⟩

theorem Begins.of_forall (hne : x ≠ []) (h : ∀ a ∈ x, p a) : Begins p x := by
  cases x with
  | nil => exact absurd rfl hne
  | cons a x => exact begins_cons.2 (h a List.mem_cons_self)

/-- Items that begin with `p` but not with `q`, or with what follows them if there is none. -/
theorem not_begins_flatMap {f : β → List α} {bs : List β} (hqp : ∀ a, q a → p a)
    (hb : ∀ b ∈ bs, Begins (fun a => p a ∧ ¬ q a) (f b)) (hx : ¬ Begins p x) :
    ¬ Begins q (bs.flatMap f ++ x) := by
  cases bs with
  | nil => exact fun h => hx (h.imp hqp)
  | cons b bs =>
    rw [List.flatMap_cons, List.append_assoc]
    exact ((hb b List.mem_cons_self).append _).not_begins fun a h => h.2

/-- Followed by anything that does not begin with `p`, equal wholes have equal rests, and `Q`
holds of the two. -/
def ReadApart (p : α → Prop) (x y : List α) (Q : Prop) : Prop :=
  ∀ ⦃r s : List α⦄, ¬ Begins p r → ¬ Begins p s → x ++ r = y ++ s → Q ∧ r = s

namespace ReadApart

theorem refl (p : α → Prop) (x : List α) : ReadApart p x x True :=
  fun _ _ _ _ h => ⟨trivial, List.append_cancel_left h⟩

theorem of_begins (hx : Begins q x) (hy : Begins (fun a => ¬ q a) y) : ReadApart p x y Q := by
  intro r s _ _ hrs
  refine absurd ?_ ((hx.append r).not_begins (q := fun a => ¬ q a) fun a ha hna => hna ha)
  exact hrs ▸ hy.append s

theorem of_heads {a b : α} (hab : a ≠ b) : ReadApart p (a :: x) (b :: y) Q :=
  fun _ _ _ _ h => absurd (List.cons.inj h).1 hab

theorem of_eq (h : ReadApart p x y Q) (hxy : x = y) : Q :=
  (h not_begins_nil not_begins_nil (by rw [hxy])).1

theorem symm (h : ReadApart p x y Q) : ReadApart p y x Q := by
  intro r s hr hs hrs
  obtain ⟨hQ, hrest⟩ := h hs hr hrs.symm
  exact ⟨hQ, hrest.symm⟩

theorem imp (h : ReadApart p x y P) (hPQ : P → Q) : ReadApart p x y Q := by
  intro r s hr hs hrs
  obtain ⟨hP, hrest⟩ := h hr hs hrs
  exact ⟨hPQ hP, hrest⟩

theorem mono (h : ReadApart p x y Q) (hpq : ∀ a, p a → q a) : ReadApart q x y Q :=
  fun _ _ hr hs => h (fun h' => hr (h'.imp hpq)) (fun h' => hs (h'.imp hpq))

theorem prepend (t : List α) (h : ReadApart p x y Q) : ReadApart p (t ++ x) (t ++ y) Q := by
  intro r s hr hs hrs
  rw [List.append_assoc, List.append_assoc] at hrs
  exact h hr hs (List.append_cancel_left hrs)

theorem append (h : ReadApart p x y P) (hx : ∀ r, ¬ Begins q r → ¬ Begins p (x' ++ r))
    (hy : ∀ r, ¬ Begins q r → ¬ Begins p (y' ++ r)) (h' : P → ReadApart q x' y' Q) :
    ReadApart q (x ++ x') (y ++ y') (P ∧ Q) := by
  intro r s hr hs hrs
  rw [List.append_assoc, List.append_assoc] at hrs
  obtain ⟨hP, hrest⟩ := h (hx r hr) (hy s hs) hrs
  obtain ⟨hQ, hend⟩ := h' hP hr hs hrest
  exact ⟨⟨hP, hQ⟩, hend⟩

/-- Where the first parts end by themselves, anything may follow. -/
theorem andThen (h : ReadApart (fun _ => False) x y P) (h' : P → ReadApart q x' y' Q) :
    ReadApart q (x ++ x') (y ++ y') (P ∧ Q) :=
  h.append (fun _ _ => not_begins_false) (fun _ _ => not_begins_false) h'

/-- A first element on each side that says something by itself. -/
theorem cons {a b : α} (h : a = b → P) (h' : P → ReadApart p x y Q) :
    ReadApart p (a :: x) (b :: y) (P ∧ Q) := by
  intro r s hr hs hrs
  obtain ⟨hab, hrest⟩ := List.cons.inj hrs
  obtain ⟨hQ, hend⟩ := h' (h hab) hr hs hrest
  exact ⟨⟨h hab, hQ⟩, hend⟩

/-- A closing element puts an end to both, and any may follow. -/
theorem close (h : ReadApart p x y Q) {a : α} (ha : ¬ p a) (t : List α) :
    ReadApart q (x ++ a :: t) (y ++ a :: t) Q := by
  intro r s _ _ hrs
  simp only [List.append_assoc, List.cons_append] at hrs
  obtain ⟨hQ, hrest⟩ := h (by simpa using ha) (by simpa using ha) hrs
  exact ⟨hQ, List.append_cancel_left (List.cons.inj hrest).2⟩

theorem run (hx : ∀ a ∈ x, p a) (hy : ∀ a ∈ y, p a) : ReadApart p x y (x = y) := by
  intro r s hr hs hrs
  induction x generalizing y with
  | nil =>
    cases y with
    | nil => exact ⟨rfl, hrs⟩
    | cons b y =>
      obtain rfl : r = b :: (y ++ s) := hrs
      exact absurd (begins_cons.2 (hy b List.mem_cons_self)) hr
  | cons a x ih =>
    cases y with
    | nil =>
      obtain rfl : a :: (x ++ r) = s := hrs
      exact absurd (begins_cons.2 (hx a List.mem_cons_self)) hs
    | cons b y =>
      obtain ⟨rfl, hrest⟩ := List.cons.inj hrs
      obtain ⟨rfl, hend⟩ := ih (fun c hc => hx c (List.mem_cons_of_mem a hc))
        (fun c hc => hy c (List.mem_cons_of_mem a hc)) hrest
      exact ⟨rfl, hend⟩

/-- A part which may be left out, and shows by how it begins where it is not. -/
theorem optional {b c : Bool} (hx : b = false → Begins p x) (hy : c = false → Begins p y)
    (hnil : b = true → c = true → Q) (h : b = false → c = false → ReadApart p x y Q) :
    ReadApart p (if b then [] else x) (if c then [] else y) Q := by
  cases b with
  | true =>
    cases c with
    | true => exact (refl p []).imp fun _ => hnil rfl rfl
    | false =>
      intro r s hr _ hrs
      obtain rfl : r = y ++ s := hrs
      exact absurd ((hy rfl).append s) hr
  | false =>
    cases c with
    | true =>
      intro r s _ hs hrs
      obtain rfl : x ++ r = s := hrs
      exact absurd ((hx rfl).append r) hs
    | false => exact h rfl rfl

/-- A part which is left out where a list is empty. -/
theorem unlessEmpty {xs ys : List β} (hx : xs ≠ [] → Begins p x) (hy : ys ≠ [] → Begins p y)
    (hnil : xs = [] → ys = [] → Q) (h : xs ≠ [] → ys ≠ [] → ReadApart p x y Q) :
    ReadApart p (if xs.isEmpty then [] else x) (if ys.isEmpty then [] else y) Q :=
  optional (fun hxs => hx (by simpa using hxs)) (fun hys => hy (by simpa using hys))
    (fun hxs hys => hnil (by simpa using hxs) (by simpa using hys))
    fun hxs hys => h (by simpa using hxs) (by simpa using hys)

/-- Items one after another, where an item begins in a way in which none goes on. -/
theorem flatMap {γ : Type} {f : β → List α} {g : γ → List α} {R : β → γ → Prop} {xs : List β}
    {ys : List γ} (hqp : ∀ a, q a → p a)
    (hx : ∀ b ∈ xs, Begins (fun a => p a ∧ ¬ q a) (f b))
    (hy : ∀ c ∈ ys, Begins (fun a => p a ∧ ¬ q a) (g c))
    (hitem : ∀ b ∈ xs, ∀ c ∈ ys, ReadApart q (f b) (g c) (R b c)) :
    ReadApart p (xs.flatMap f) (ys.flatMap g) (List.Forall₂ R xs ys) := by
  intro r s hr hs hrs
  induction xs generalizing ys with
  | nil =>
    cases ys with
    | nil => exact ⟨.nil, hrs⟩
    | cons c ys =>
      obtain rfl : r = g c ++ ys.flatMap g ++ s := by simpa using hrs
      refine absurd ?_ hr
      exact (((hy c List.mem_cons_self).imp fun _ h => h.1).append _).append s
  | cons b xs ih =>
    cases ys with
    | nil =>
      obtain rfl : f b ++ xs.flatMap f ++ r = s := by simpa using hrs
      refine absurd ?_ hs
      exact (((hx b List.mem_cons_self).imp fun _ h => h.1).append _).append r
    | cons c ys =>
      rw [List.forall_mem_cons] at hx hy
      simp only [List.flatMap_cons, List.append_assoc] at hrs
      obtain ⟨hR, hrest⟩ := hitem b List.mem_cons_self c List.mem_cons_self
        (not_begins_flatMap hqp hx.2 hr) (not_begins_flatMap hqp hy.2 hs) hrs
      obtain ⟨hRs, hend⟩ := ih hx.2 hy.2
        (fun b hb c hc => hitem b (List.mem_cons_of_mem _ hb) c (List.mem_cons_of_mem _ hc)) hrest
      exact ⟨.cons hR hRs, hend⟩

end ReadApart

theorem Decimal.begins_digits (n : Nat) : Begins (fun c => c.isDigit = true) (digits n) :=
  .of_forall (digits_ne_nil n) fun _ => isDigit_of_mem_digits

theorem Decimal.digits_readApart (m n : Nat) :
    ReadApart (fun c => c.isDigit = true) (digits m) (digits n) (m = n) :=
  (ReadApart.run (fun _ => isDigit_of_mem_digits) fun _ => isDigit_of_mem_digits).imp digits_inj.1

namespace Text

variable {f : β → Text} {R : β → β → Prop} {xs ys : List β} {k l : Char → Prop}

theorem commaSeparated_map_cons (f : β → Text) (b : β) (bs : List β) :
    commaSeparated ((b :: bs).map f) = f b ++ bs.flatMap fun c => ", ".toList ++ f c := by
  induction bs generalizing b with
  | nil => simp
  | cons c bs ih => simpa using ih c

theorem not_mem_commaSeparated {c : Char} {ts : List Text} (h : ∀ t ∈ ts, c ∉ t)
    (hc : c ∉ ", ".toList := by decide) : c ∉ commaSeparated ts := by
  cases ts with
  | nil => exact List.not_mem_nil
  | cons t ts =>
    rw [List.forall_mem_cons] at h
    rw [← List.map_id (t :: ts), commaSeparated_map_cons]
    refine List.not_mem_append h.1 fun hmem => ?_
    obtain ⟨u, hu, hcu⟩ := List.mem_flatMap.1 hmem
    exact List.not_mem_append hc (h.2 u hu) hcu

theorem not_mem_surround {c : Char} {opening closing : String} {t : Text} (h : c ∉ t)
    (ho : c ∉ opening.toList := by decide) (hc : c ∉ closing.toList := by decide) :
    c ∉ surround opening closing t :=
  List.not_mem_append (List.not_mem_append ho h) hc

theorem surround_readApart {opening closing : String} {c : Char} {t body body' : Text} {Q : Prop}
    (hclosing : closing.toList = c :: t) (h : ReadApart l (body ++ c :: t) (body' ++ c :: t) Q) :
    ReadApart l (surround opening closing body) (surround opening closing body') Q := by
  rw [surround, surround, hclosing, List.append_assoc, List.append_assoc]
  exact h.prepend opening.toList

/-- Listings are read apart item by item, once it is known whether there is an item at all. -/
theorem commaSeparated_readApart (hk : ¬ k ',') (hempty : xs = [] ↔ ys = [])
    (hitem : ∀ b ∈ xs, ∀ c ∈ ys, ReadApart k (f b) (f c) (R b c)) :
    ReadApart (fun c => k c ∨ c = ',') (commaSeparated (xs.map f)) (commaSeparated (ys.map f))
      (List.Forall₂ R xs ys) := by
  cases xs with
  | nil =>
    obtain rfl := hempty.1 rfl
    exact fun r s _ _ hrs => ⟨.nil, hrs⟩
  | cons b xs =>
    cases ys with
    | nil => simp at hempty
    | cons c ys =>
      have hcomma (zs : List β) : ∀ b ∈ zs,
          Begins (fun c => (k c ∨ c = ',') ∧ ¬ k c) (", ".toList ++ f b) :=
        fun _ _ => begins_cons.2 ⟨.inr rfl, hk⟩
      have hrest : ReadApart (fun c => k c ∨ c = ',') (xs.flatMap fun b => ", ".toList ++ f b)
          (ys.flatMap fun b => ", ".toList ++ f b) (List.Forall₂ R xs ys) :=
        ReadApart.flatMap (fun _ => .inl) (hcomma xs) (hcomma ys) fun b hb c hc =>
          (hitem b (List.mem_cons_of_mem _ hb) c (List.mem_cons_of_mem _ hc)).prepend _
      rw [commaSeparated_map_cons, commaSeparated_map_cons]
      refine ((hitem b List.mem_cons_self c List.mem_cons_self).append
        (fun r hr => not_begins_flatMap (fun _ => .inl) (hcomma xs) hr)
        (fun r hr => not_begins_flatMap (fun _ => .inl) (hcomma ys) hr) fun _ => hrest).imp ?_
      exact fun h => .cons h.1 h.2

/-- A closing character that begins no item shows by itself where there is none. -/
theorem listing_readApart {c : Char} (hk : ¬ k ',') (hc : ¬ k c) (hcomma : c ≠ ',')
    (hx : ∀ b ∈ xs, Begins (· ≠ c) (f b)) (hy : ∀ b ∈ ys, Begins (· ≠ c) (f b))
    (hitem : ∀ b ∈ xs, ∀ b' ∈ ys, ReadApart k (f b) (f b') (R b b')) (t : Text) :
    ReadApart l (commaSeparated (xs.map f) ++ c :: t) (commaSeparated (ys.map f) ++ c :: t)
      (List.Forall₂ R xs ys) := by
  have hfirst (b : β) (bs : List β) (hb : Begins (· ≠ c) (f b)) (r s : Text) :
      commaSeparated ((b :: bs).map f) ++ c :: t ++ r ≠ commaSeparated [] ++ c :: t ++ s := by
    intro h
    rw [commaSeparated_map_cons, List.append_assoc, List.append_assoc] at h
    have hbegins := hb.append ((bs.flatMap fun c => ", ".toList ++ f c) ++ (c :: t ++ r))
    rw [h] at hbegins
    simp at hbegins
  have hclosed (hempty : xs = [] ↔ ys = []) := (commaSeparated_readApart hk hempty hitem).close
    (q := l) (a := c) (by simp [hc, hcomma]) t
  cases xs with
  | nil =>
    cases ys with
    | nil => exact hclosed (by simp)
    | cons b ys => exact fun r s _ _ h => absurd h.symm (hfirst b ys (hy b (by simp)) s r)
  | cons b xs =>
    cases ys with
    | nil => exact fun r s _ _ h => absurd h (hfirst b xs (hx b (by simp)) r s)
    | cons b' ys => exact hclosed (by simp)

end Text

end GenericIR
