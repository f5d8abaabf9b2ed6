/-! # Dictionaries

A finite map with its entries in increasing order of the keys, each key once. As the order fixes the
list, two dictionaries with the same look-ups are equal. -/
namespace DocTools
set_option autoImplicit false

variable {κ α β : Type} [LT κ]

structure Dictionary (κ α : Type) [LT κ] where
  toList : List (κ × α)
  increasing : toList.Pairwise fun a b => a.1 < b.1

namespace Dictionary

theorem lookup_cons {κ : Type} [DecidableEq κ] (k k' : κ) (x : α) (l : List (κ × α)) :
    ((k', x) :: l).lookup k = if k = k' then some x else l.lookup k := by
  show (match k == k' with | true => some x | false => l.lookup k) = _
  by_cases h : k = k'
  · rw [if_pos h, beq_iff_eq.2 h]
  · rw [if_neg h, beq_eq_false_iff_ne.2 h]

def empty : Dictionary κ α := ⟨[], .nil⟩

instance : EmptyCollection (Dictionary κ α) := ⟨empty⟩
instance : Inhabited (Dictionary κ α) := ⟨empty⟩

theorem ext_toList {a b : Dictionary κ α} (h : a.toList = b.toList) : a = b := by
  cases a; cases b; cases h; rfl

def size (d : Dictionary κ α) : Nat := d.toList.length
def isEmpty (d : Dictionary κ α) : Bool := d.toList.isEmpty
def keys (d : Dictionary κ α) : List κ := d.toList.map (·.1)

variable [DecidableEq κ]

def get? (d : Dictionary κ α) (k : κ) : Option α := d.toList.lookup k
def contains (d : Dictionary κ α) (k : κ) : Bool := (d.get? k).isSome

@[simp] theorem get?_empty (k : κ) : (empty : Dictionary κ α).get? k = none := rfl

omit [LT κ] in
theorem isSome_lookup_iff {k : κ} {l : List (κ × α)} : (l.lookup k).isSome ↔ k ∈ l.map (·.1) := by
  induction l with
  | nil => exact ⟨fun h => absurd h Bool.false_ne_true, fun h => absurd h List.not_mem_nil⟩
  | cons first rest ih =>
    obtain ⟨k', x⟩ := first
    rw [lookup_cons, List.map_cons, List.mem_cons, ← ih]
    by_cases h : k = k'
    · rw [if_pos h]
      exact ⟨fun _ => .inl h, fun _ => rfl⟩
    · rw [if_neg h]
      exact ⟨.inr, fun hk => hk.resolve_left h⟩

theorem mem_keys_iff {d : Dictionary κ α} {k : κ} : k ∈ d.keys ↔ (d.get? k).isSome :=
  isSome_lookup_iff.symm

/-! ## Look-ups decide equality -/

section
variable [Std.Irrefl (· < · : κ → κ → Prop)]

theorem lookup_eq_some_iff {l : List (κ × α)} (h : l.Pairwise fun a b => a.1 < b.1) {k : κ} {x : α} :
    l.lookup k = some x ↔ (k, x) ∈ l := by
  induction l with
  | nil => simp
  | cons first rest ih =>
    obtain ⟨k', x'⟩ := first
    obtain ⟨hfirst, hrest⟩ := List.pairwise_cons.1 h
    rw [lookup_cons, List.mem_cons, Prod.mk.injEq]
    by_cases hk : k = k'
    · subst hk
      simp only [if_true, Option.some.injEq, true_and]
      exact ⟨fun hx => .inl hx.symm, fun hx => hx.elim Eq.symm fun hm =>
        absurd (hfirst _ hm) (Std.Irrefl.irrefl k)⟩
    · simp [hk, ih hrest]

theorem get?_eq_some_iff {d : Dictionary κ α} {k : κ} {x : α} :
    d.get? k = some x ↔ (k, x) ∈ d.toList := lookup_eq_some_iff d.increasing

omit [DecidableEq κ] in
theorem nodup_toList (d : Dictionary κ α) : d.toList.Nodup := by
  refine List.Pairwise.imp (fun {x y} hxy hx => ?_) d.increasing
  subst hx
  exact Std.Irrefl.irrefl (r := (· < · : κ → κ → Prop)) _ hxy

omit [DecidableEq κ] in
/-- A list in increasing order is known by its members. -/
theorem eq_of_increasing [Std.Asymm (· < · : κ → κ → Prop)] {β : Type} {f : β → κ} {l m : List β}
    (hl : l.Pairwise fun x y => f x < f y) (hm : m.Pairwise fun x y => f x < f y)
    (h : ∀ x, x ∈ l ↔ x ∈ m) : l = m := by
  have hasymm : ∀ x y : β, x ∈ l → y ∈ m → f x < f y → f y < f x → x = y :=
    fun _ _ _ _ hxy hyx => absurd hyx (Std.Asymm.asymm _ _ hxy)
  have hne {x y : β} (hxy : f x < f y) : x ≠ y := fun heq => Std.Irrefl.irrefl (f y) (heq ▸ hxy)
  exact ((List.perm_ext_iff_of_nodup (hl.imp hne) (hm.imp hne)).2 h).eq_of_pairwise hasymm hl hm

theorem ext_get? [Std.Asymm (· < · : κ → κ → Prop)] {a b : Dictionary κ α}
    (h : ∀ k, a.get? k = b.get? k) : a = b := by
  refine ext_toList (eq_of_increasing a.increasing b.increasing fun e => ?_)
  rw [← get?_eq_some_iff, ← get?_eq_some_iff, h]

omit [DecidableEq κ] in
theorem keys_eq [Std.Asymm (· < · : κ → κ → Prop)] {a b : Dictionary κ α}
    (h : ∀ k, k ∈ a.keys ↔ k ∈ b.keys) : a.keys = b.keys :=
  eq_of_increasing (f := id) (List.pairwise_map.2 a.increasing) (List.pairwise_map.2 b.increasing) h

end

/-! ## Insertion -/

variable [DecidableLT κ]

/-- The entry put where the order wants it, in place of one with the same key. -/
def insertInto (k : κ) (x : α) : List (κ × α) → List (κ × α)
  | [] => [(k, x)]
  | (k', x') :: rest =>
    if k < k' then (k, x) :: (k', x') :: rest
    else if k = k' then (k, x) :: rest
    else (k', x') :: insertInto k x rest

theorem mem_insertInto {k : κ} {x : α} {e : κ × α} {l : List (κ × α)}
    (h : e ∈ insertInto k x l) : e = (k, x) ∨ e ∈ l := by
  induction l with
  | nil => simpa [insertInto] using h
  | cons first rest ih =>
    obtain ⟨k', x'⟩ := first
    simp only [insertInto] at h
    split at h
    · simpa using h
    · split at h
      · rcases List.mem_cons.1 h with h | h
        · exact .inl h
        · exact .inr (List.mem_cons_of_mem _ h)
      · rcases List.mem_cons.1 h with h | h
        · exact .inr (h ▸ List.mem_cons_self)
        · exact (ih h).imp id (List.mem_cons_of_mem _)

theorem lookup_insertInto (k k' : κ) (x : α) (l : List (κ × α)) :
    (insertInto k x l).lookup k' = if k' = k then some x else l.lookup k' := by
  induction l with
  | nil => simp [insertInto, lookup_cons]
  | cons first rest ih =>
    obtain ⟨j, y⟩ := first
    simp only [insertInto]
    split
    · simp [lookup_cons]
    · split
      · next h => subst h; simp only [lookup_cons]; split <;> rfl
      · next h =>
        simp only [lookup_cons, ih]
        by_cases hk : k' = k
        · subst hk; simp [h]
        · simp [hk]

theorem length_insertInto {k : κ} {l : List (κ × α)} (h : l.lookup k = none) (x : α) :
    (insertInto k x l).length = l.length + 1 := by
  induction l with
  | nil => rfl
  | cons first rest ih =>
    obtain ⟨k', x'⟩ := first
    rw [lookup_cons] at h
    by_cases hk : k = k'
    · rw [if_pos hk] at h
      cases h
    · rw [if_neg hk] at h
      rw [insertInto, if_neg hk]
      split
      · rfl
      · exact congrArg Nat.succ (ih h)

variable [Trans (· < · : κ → κ → Prop) (· < · : κ → κ → Prop) (· < · : κ → κ → Prop)]
  [Std.Trichotomous (· < · : κ → κ → Prop)]

theorem increasing_insertInto (k : κ) (x : α) {l : List (κ × α)}
    (h : l.Pairwise fun a b => a.1 < b.1) :
    (insertInto k x l).Pairwise fun a b => a.1 < b.1 := by
  induction l with
  | nil => simp [insertInto]
  | cons first rest ih =>
    obtain ⟨k', x'⟩ := first
    obtain ⟨hfirst, hrest⟩ := List.pairwise_cons.1 h
    simp only [insertInto]
    split
    · next hlt =>
      refine List.pairwise_cons.2 ⟨fun e he => ?_, h⟩
      rcases List.mem_cons.1 he with rfl | he
      · exact hlt
      · exact Trans.trans hlt (hfirst e he)
    · next hlt =>
      split
      · next heq => subst heq; exact List.pairwise_cons.2 ⟨hfirst, hrest⟩
      · next hne =>
        refine List.pairwise_cons.2 ⟨fun e he => ?_, ih hrest⟩
        rcases mem_insertInto he with rfl | he
        · exact Classical.byContradiction fun hgt =>
            hne (Std.Trichotomous.trichotomous (r := (· < · : κ → κ → Prop)) k k' hlt hgt)
        · exact hfirst e he

def insert (d : Dictionary κ α) (k : κ) (x : α) : Dictionary κ α :=
  ⟨insertInto k x d.toList, increasing_insertInto k x d.increasing⟩

/-- The dictionary of a list of entries; of two with one key the later counts. -/
def ofList (entries : List (κ × α)) : Dictionary κ α :=
  entries.foldl (fun d e => d.insert e.1 e.2) empty

@[simp] theorem get?_insert (d : Dictionary κ α) (k k' : κ) (x : α) :
    (d.insert k x).get? k' = if k' = k then some x else d.get? k' :=
  lookup_insertInto k k' x d.toList

section
variable [Std.Asymm (· < · : κ → κ → Prop)]

omit [Trans (· < · : κ → κ → Prop) (· < · : κ → κ → Prop) (· < · : κ → κ → Prop)]
  [Std.Trichotomous (· < · : κ → κ → Prop)] in
theorem insertInto_eq_append {k : κ} {x : α} {l : List (κ × α)} (h : ∀ e ∈ l, e.1 < k) :
    insertInto k x l = l ++ [(k, x)] := by
  induction l with
  | nil => rfl
  | cons first rest ih =>
    obtain ⟨k', x'⟩ := first
    have hlt : k' < k := h _ List.mem_cons_self
    have hgt : ¬ k < k' := Std.Asymm.asymm _ _ hlt
    have hne : k ≠ k' := fun hk => hgt (hk ▸ hlt)
    rw [insertInto, if_neg hgt, if_neg hne, ih fun e he => h e (List.mem_cons_of_mem _ he)]
    rfl

theorem toList_foldl_insert {d : Dictionary κ α} {entries : List (κ × α)}
    (h : (d.toList ++ entries).Pairwise fun a b => a.1 < b.1) :
    (entries.foldl (fun d e => d.insert e.1 e.2) d).toList = d.toList ++ entries := by
  induction entries generalizing d with
  | nil => exact (List.append_nil _).symm
  | cons e entries ih =>
    have hlast : (d.insert e.1 e.2).toList = d.toList ++ [e] :=
      insertInto_eq_append fun a ha => (List.pairwise_append.1 h).2.2 a ha e List.mem_cons_self
    have hsplit : d.toList ++ e :: entries = (d.insert e.1 e.2).toList ++ entries := by
      rw [hlast, List.append_assoc, List.singleton_append]
    rw [List.foldl_cons, hsplit, ih (hsplit ▸ h)]

@[simp] theorem ofList_toList (d : Dictionary κ α) : ofList d.toList = d :=
  ext_toList (toList_foldl_insert d.increasing)

end

theorem size_insert {d : Dictionary κ α} {k : κ} (h : ¬d.contains k = true) (x : α) :
    (d.insert k x).size = d.size + 1 :=
  length_insertInto (Option.not_isSome_iff_eq_none.mp h) x

theorem contains_insert {d : Dictionary κ α} {k k' : κ} {x : α} :
    (d.insert k x).contains k' = true ↔ k' = k ∨ d.contains k' = true := by
  unfold contains
  rw [get?_insert]
  by_cases h : k' = k <;> simp [h]

theorem mem_keys_insert {d : Dictionary κ α} {k k' : κ} {x : α} :
    k' ∈ (d.insert k x).keys ↔ k' = k ∨ k' ∈ d.keys := by
  rw [mem_keys_iff, mem_keys_iff]
  exact contains_insert

theorem mem_keys_ofList {entries : List (κ × α)} {k : κ} :
    k ∈ (ofList entries).keys ↔ k ∈ entries.map (·.1) := by
  have hfold (d : Dictionary κ α) :
      k ∈ (entries.foldl (fun d e => d.insert e.1 e.2) d).keys ↔
        k ∈ d.keys ∨ k ∈ entries.map (·.1) := by
    induction entries generalizing d with
    | nil => simp
    | cons e entries ih =>
      rw [List.foldl_cons, ih, mem_keys_insert, List.map_cons, List.mem_cons, or_left_comm, or_assoc]
  rw [ofList, hfold]
  exact or_iff_right List.not_mem_nil

end Dictionary
end DocTools
