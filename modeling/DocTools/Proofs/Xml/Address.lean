import DocTools.Xml.Node
import Mathlib.Data.List.Nodup

/-! # Addresses in a document

A node of a document is known by its address: the numbers of the children to go to, one after the
other, from the root. Equal elements in two places have two addresses, so that statements on
addresses tell them apart. The main statements: the addresses of a document are listed once each, in
the order of the document, and its occurrences are what stands at them. -/
namespace DocTools.Xml
set_option autoImplicit false

abbrev Address := List Nat

namespace Address

/-- The address of the element that a node lies in; the root lies in none. -/
def parent? (p : Address) : Option Address := if p = [] then none else some p.dropLast

@[simp] theorem parent?_nil : parent? [] = none := rfl

@[simp] theorem parent?_append_singleton (p : Address) (i : Nat) : parent? (p ++ [i]) = some p := by
  simp [parent?]

theorem parent?_eq_some_iff (p q : Address) : q.parent? = some p ↔ ∃ i, q = p ++ [i] := by
  constructor
  · intro h
    have hne : q ≠ [] := by
      rintro rfl
      cases h
    rw [parent?, if_neg hne, Option.some_inj] at h
    exact ⟨q.getLast hne, by rw [← h, List.dropLast_append_getLast hne]⟩
  · rintro ⟨i, rfl⟩
    exact parent?_append_singleton p i

end Address

namespace Node

/-! ## What stands at an address -/

def at? : Node → Address → Option Node
  | node, [] => some node
  | node, i :: rest =>
    match node.children[i]? with
    | none => none
    | some child => at? child rest

@[simp] theorem at?_nil (node : Node) : node.at? [] = some node := rfl

theorem at?_cons (node : Node) (i : Nat) (p : Address) :
    node.at? (i :: p) = (node.children[i]?).bind fun child => child.at? p := by
  rw [at?]
  cases node.children[i]? <;> rfl

theorem at?_append (node : Node) (p q : Address) :
    node.at? (p ++ q) = (node.at? p).bind fun below => below.at? q := by
  induction p generalizing node with
  | nil => rfl
  | cons i p ih =>
    rw [List.cons_append, at?_cons, at?_cons]
    cases node.children[i]? with
    | none => rfl
    | some child => exact ih child

theorem at?_append_singleton (node : Node) (p : Address) (i : Nat) :
    node.at? (p ++ [i]) = (node.at? p).bind fun parent => parent.children[i]? := by
  rw [at?_append]
  congr 1
  funext parent
  rw [at?_cons]
  cases parent.children[i]? <;> rfl

def parentAt? (root : Node) (p : Address) : Option Node := p.parent?.bind root.at?

/-! ## Listing addresses -/

mutual

/-- The addresses of a node and of all that lies below it, in the order of the document. -/
def addresses : Node → List Address
  | .element _ _ children => [] :: addressesIn 0 children
  | _ => [[]]

/-- The addresses of children and of all that lies below them, for children from a number on. -/
def addressesIn (first : Nat) : List Node → List Address
  | [] => []
  | node :: nodes => (addresses node).map (first :: ·) ++ addressesIn (first + 1) nodes

end

mutual

theorem mem_addresses_iff (node : Node) (p : Address) :
    p ∈ node.addresses ↔ (node.at? p).isSome := by
  cases node with
  | element name attributes children =>
    cases p with
    | nil => simp [addresses]
    | cons i p =>
      have hin := cons_mem_addressesIn_iff children 0 i p
      rw [addresses, List.mem_cons, hin, at?_cons]
      simp [Node.children]
  | text content => cases p <;> simp [addresses, at?_cons, Node.children]
  | comment content => cases p <;> simp [addresses, at?_cons, Node.children]
  | instruction target => cases p <;> simp [addresses, at?_cons, Node.children]

theorem cons_mem_addressesIn_iff (nodes : List Node) (first i : Nat) (p : Address) :
    i :: p ∈ addressesIn first nodes ↔
      first ≤ i ∧ ((nodes[i - first]?).bind fun child => child.at? p).isSome := by
  cases nodes with
  | nil => simp [addressesIn]
  | cons node nodes =>
    have hnode := mem_addresses_iff node p
    have hrest := cons_mem_addressesIn_iff nodes (first + 1) i p
    rw [addressesIn, List.mem_append, hrest]
    have hhead : i :: p ∈ node.addresses.map (first :: ·) ↔ i = first ∧ (node.at? p).isSome := by
      rw [← hnode]
      simp only [List.mem_map, List.cons.injEq]
      constructor
      · rintro ⟨q, hq, rfl, rfl⟩
        exact ⟨rfl, hq⟩
      · rintro ⟨rfl, hq⟩
        exact ⟨p, hq, rfl, rfl⟩
    rw [hhead]
    -- before the first child there is none; the first is `node`; all others are among `nodes`
    rcases Nat.lt_trichotomy i first with hlt | rfl | hgt
    · constructor
      · rintro (⟨rfl, -⟩ | ⟨h, -⟩) <;> omega
      · rintro ⟨h, -⟩
        omega
    · constructor
      · rintro (⟨-, h⟩ | ⟨h, -⟩)
        · exact ⟨Nat.le_refl i, by simpa using h⟩
        · omega
      · rintro ⟨-, h⟩
        exact .inl ⟨rfl, by simpa using h⟩
    · obtain ⟨k, rfl⟩ : ∃ k, i = first + 1 + k := ⟨i - (first + 1), by omega⟩
      have h1 : first + 1 + k - (first + 1) = k := by omega
      have h2 : first + 1 + k - first = k + 1 := by omega
      rw [h1, h2, List.getElem?_cons_succ]
      constructor
      · rintro (⟨h, -⟩ | ⟨-, h⟩)
        · omega
        · exact ⟨by omega, h⟩
      · rintro ⟨-, h⟩
        exact .inr ⟨by omega, h⟩

end

theorem nil_not_mem_addressesIn (first : Nat) (nodes : List Node) :
    [] ∉ addressesIn first nodes := by
  induction nodes generalizing first with
  | nil => simp [addressesIn]
  | cons node nodes ih => simp [addressesIn, ih (first + 1)]

mutual

theorem nodup_addresses (node : Node) : node.addresses.Nodup := by
  cases node with
  | element name attributes children =>
    rw [addresses]
    exact List.nodup_cons.mpr ⟨nil_not_mem_addressesIn 0 children, nodup_addressesIn 0 children⟩
  | text content => exact List.nodup_singleton []
  | comment content => exact List.nodup_singleton []
  | instruction target => exact List.nodup_singleton []

theorem nodup_addressesIn (first : Nat) (nodes : List Node) : (addressesIn first nodes).Nodup := by
  cases nodes with
  | nil => exact List.nodup_nil
  | cons node nodes =>
    have hnode := nodup_addresses node
    have hrest := nodup_addressesIn (first + 1) nodes
    rw [addressesIn]
    refine (hnode.map ?_).append hrest ?_
    · intro p q h
      exact (List.cons.inj h).2
    · intro p hp hin
      obtain ⟨q, -, rfl⟩ := List.mem_map.mp hp
      have := ((cons_mem_addressesIn_iff nodes (first + 1) first q).mp hin).1
      omega

end

/-! ## Occurrences are what stands at the addresses -/

/-- What stands at an address, with what it lies in; `above` is what the root lies in. -/
def occurrenceAt (above : Option Node) (root : Node) (p : Address) : Occurrence :=
  ⟨if p = [] then above else root.parentAt? p, (root.at? p).getD default⟩

theorem at?_cons_of_getElem? {node child : Node} {i : Nat} (h : node.children[i]? = some child)
    (p : Address) : node.at? (i :: p) = child.at? p := by
  rw [at?_cons, h, Option.bind_some]

theorem occurrenceAt_cons {node child : Node} {i : Nat} (h : node.children[i]? = some child)
    (above : Option Node) (p : Address) :
    occurrenceAt above node (i :: p) = occurrenceAt (some node) child p := by
  unfold occurrenceAt
  rw [at?_cons_of_getElem? h, if_neg (List.cons_ne_nil i p)]
  congr 1
  cases p with
  | nil => simp [parentAt?, Address.parent?]
  | cons j p =>
    rw [if_neg (List.cons_ne_nil j p)]
    show Option.bind (some (i :: (j :: p).dropLast)) node.at? = Option.bind (some (j :: p).dropLast) child.at?
    rw [Option.bind_some, Option.bind_some, at?_cons_of_getElem? h]

theorem occurrenceAt_nil (above : Option Node) (node : Node) :
    occurrenceAt above node [] = ⟨above, node⟩ := rfl

mutual

theorem occurrences_eq_map (above : Option Node) (node : Node) :
    node.occurrences above = node.addresses.map (occurrenceAt above node) := by
  cases node with
  | element name attributes children =>
    have hin := occurrencesIn_eq_map above (.element name attributes children) [] children rfl
    rw [occurrences, addresses, List.map_cons, occurrenceAt_nil, hin]
    rfl
  | text content => rfl
  | comment content => rfl
  | instruction target => rfl

theorem occurrencesIn_eq_map (above : Option Node) (node : Node) (before nodes : List Node)
    (h : node.children = before ++ nodes) :
    occurrencesIn node nodes = (addressesIn before.length nodes).map (occurrenceAt above node) := by
  cases nodes with
  | nil => rfl
  | cons child nodes =>
    have hchild := occurrences_eq_map (some node) child
    have hrest := occurrencesIn_eq_map above node (before ++ [child]) nodes (by simp [h])
    have hget : node.children[before.length]? = some child := by simp [h]
    rw [occurrencesIn, addressesIn, List.map_append, List.map_map, hchild, hrest]
    congr 1
    · apply List.map_congr_left
      intro p _
      exact (occurrenceAt_cons hget above p).symm
    · rw [List.length_append, List.length_singleton]

end

/-! ## Children -/

def childAddresses (root : Node) (p : Address) : List Address :=
  match root.at? p with
  | none => []
  | some node => (List.range node.children.length).map fun i => p ++ [i]

theorem mem_childAddresses_iff (root : Node) (p q : Address) :
    q ∈ root.childAddresses p ↔ (root.at? q).isSome ∧ q.parent? = some p := by
  rw [Address.parent?_eq_some_iff, childAddresses]
  cases h : root.at? p with
  | none =>
    constructor
    · intro hq
      cases hq
    · rintro ⟨hq, i, rfl⟩
      rw [at?_append_singleton, h] at hq
      cases hq
  | some node =>
    simp only [List.mem_map, List.mem_range]
    constructor
    · rintro ⟨i, hi, rfl⟩
      refine ⟨?_, i, rfl⟩
      rw [at?_append_singleton, h, Option.bind_some, List.getElem?_eq_getElem hi]
      rfl
    · rintro ⟨hq, i, rfl⟩
      rw [at?_append_singleton, h, Option.bind_some] at hq
      exact ⟨i, by simpa using hq, rfl⟩

theorem nodup_childAddresses (root : Node) (p : Address) : (root.childAddresses p).Nodup := by
  unfold childAddresses
  cases root.at? p with
  | none => exact List.nodup_nil
  | some node =>
    refine List.nodup_range.map ?_
    intro i j h
    simpa using h

theorem map_at?_childAddresses {root node : Node} {p : Address} (h : root.at? p = some node) :
    (root.childAddresses p).map root.at? = node.children.map some := by
  rw [childAddresses, h, List.map_map]
  apply List.ext_getElem?
  intro i
  rw [List.getElem?_map, List.getElem?_map]
  by_cases hi : i < node.children.length
  · rw [List.getElem?_range hi, Option.map_some, Function.comp_apply, at?_append_singleton, h,
      Option.bind_some, List.getElem?_eq_getElem hi, Option.map_some]
  · rw [List.getElem?_eq_none (by simpa using hi), List.getElem?_eq_none (by simpa using hi)]
    rfl

end Node
end DocTools.Xml
