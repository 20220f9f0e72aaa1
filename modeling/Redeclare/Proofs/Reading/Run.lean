import Mathlib.Data.List.Forall2
import Mathlib.Tactic.SplitIfs
import Redeclare.Reading.Yaml

/-!
# Readings that go through

What is known of the parts of a reading once the whole has gone through, and of
the whole once its parts have.  Results come first, then readings of a document,
which also count the aliases that they follow.

* `run_bind_eq_ok_iff` and its like take a reading apart, step by step.
* `Document.Resolves` is the node that stands in a place, behind an alias or
  not, and `Document.IsKey` a text in the place of a key.
* `run_items_eq_ok_iff`, `run_pairs_eq_ok_iff`, `forall₂_of_run_mapM` and
  `run_mapM_of_forall₂` go through the parts of a collection.
-/

namespace Redeclare

open Yaml

/-! ## Results -/

section Results

variable {ε ε' α β : Type}

theorem bind_eq_ok_iff {x : Except ε α} {f : α → Except ε β} {b : β} :
    x >>= f = .ok b ↔ ∃ a, x = .ok a ∧ f a = .ok b := by
  cases x with
  | error e => exact ⟨fun h => (nomatch h), fun ⟨_, h, _⟩ => (nomatch h)⟩
  | ok a =>
    constructor
    · exact fun h => ⟨a, rfl, h⟩
    · rintro ⟨a', ha, h⟩
      rw [Except.ok.inj ha]
      exact h

theorem map_eq_ok_iff {x : Except ε α} {f : α → β} {b : β} :
    x.map f = .ok b ↔ ∃ a, x = .ok a ∧ f a = b := by
  cases x <;> simp [Except.map]

theorem mapError_eq_ok_iff {x : Except ε α} {f : ε → ε'} {a : α} :
    x.mapError f = .ok a ↔ x = .ok a := by
  cases x <;> simp [Except.mapError]

theorem mapError_eq_error_iff {x : Except ε α} {f : ε → ε'} {e' : ε'} :
    x.mapError f = .error e' ↔ ∃ e, x = .error e ∧ f e = e' := by
  cases x <;> simp [Except.mapError]

theorem mapError_bind (x : Except ε α) (f : α → Except ε β) (g : ε → ε') :
    (x >>= f).mapError g = x.mapError g >>= fun a => (f a).mapError g := by
  cases x <;> rfl

theorem mapError_map (x : Except ε α) (f : α → β) (g : ε → ε') :
    (x.map f).mapError g = (x.mapError g).map f := by
  cases x <;> rfl

theorem eq_ok_of_toOption {x : Except ε α} {a : α} (h : x.toOption = some a) : x = .ok a := by
  cases x with
  | error e => exact nomatch h
  | ok b => rw [Option.some.inj h]

/-- A result that passes a test, from the evaluation of the test. -/
theorem exists_eq_ok_of_toOption_map {x : Except ε α} {test : α → β} {b : β}
    (h : x.toOption.map test = some b) : ∃ a, x = .ok a ∧ test a = b := by
  obtain ⟨a, ha, htest⟩ := Option.map_eq_some_iff.mp h
  exact ⟨a, eq_ok_of_toOption ha, htest⟩

theorem toOption_bind (x : Except ε α) (f : α → Except ε β) :
    (x >>= f).toOption = x.toOption.bind fun a => (f a).toOption := by
  cases x <;> rfl

theorem toOption_map (x : Except ε α) (f : α → β) : (x.map f).toOption = x.toOption.map f := by
  cases x <;> rfl

theorem ok_iff_of_toOption_eq {x y : Except ε α} (h : x.toOption = y.toOption) (a : α) :
    x = .ok a ↔ y = .ok a :=
  ⟨fun hx => eq_ok_of_toOption (h.symm.trans (congrArg _ hx)),
    fun hy => eq_ok_of_toOption (h.trans (congrArg _ hy))⟩

theorem toOption_eq_of_forall_ok_iff {x y : Except ε α} (h : ∀ a, x = .ok a ↔ y = .ok a) :
    x.toOption = y.toOption := by
  cases x with
  | ok a => rw [(h a).mp rfl]
  | error e =>
    cases y with
    | error e' => rfl
    | ok b => exact nomatch (h b).mpr rfl

end Results

/-! ## Lists that agree item by item -/

section Lists

variable {α β γ : Type} {R : α → β → Prop} {S : β → γ → Prop} {xs : List α} {ys : List β}
  {zs : List γ}

theorem exists_mem_of_forall₂ (h : List.Forall₂ R xs ys) {x : α} (hx : x ∈ xs) :
    ∃ y ∈ ys, R x y := by
  induction h with
  | nil => exact nomatch hx
  | @cons x' y xs ys hhead _ ih =>
    rcases List.mem_cons.mp hx with rfl | hx
    · exact ⟨y, List.mem_cons_self, hhead⟩
    · obtain ⟨y', hy', hR⟩ := ih hx
      exact ⟨y', List.mem_cons_of_mem _ hy', hR⟩

theorem exists_mem_of_forall₂_right (h : List.Forall₂ R xs ys) {y : β} (hy : y ∈ ys) :
    ∃ x ∈ xs, R x y :=
  exists_mem_of_forall₂ h.flip hy

theorem forall₂_comp (h : List.Forall₂ R xs ys) (h' : List.Forall₂ S ys zs) :
    List.Forall₂ (fun x z => ∃ y, R x y ∧ S y z) xs zs := by
  induction h generalizing zs with
  | nil => exact List.forall₂_nil_left_iff.mp h' ▸ .nil
  | cons hhead _ ih =>
    obtain ⟨z, rest, hhead', htail', rfl⟩ := List.forall₂_cons_left_iff.mp h'
    exact .cons ⟨_, hhead, hhead'⟩ (ih htail')

/-- What holds of the items of the left list may be used item by item. -/
theorem forall₂_of_mem {T : α → β → Prop} (h : List.Forall₂ R xs ys)
    (himp : ∀ x ∈ xs, ∀ y, R x y → T x y) : List.Forall₂ T xs ys := by
  induction h with
  | nil => exact .nil
  | cons hhead _ ih =>
    exact .cons (himp _ List.mem_cons_self _ hhead)
      (ih fun x hx => himp x (List.mem_cons_of_mem _ hx))

theorem exists_forall₂_of_forall_exists {T : α → γ → Prop} (h : ∀ x ∈ xs, ∃ z, T x z) :
    ∃ zs, List.Forall₂ T xs zs := by
  induction xs with
  | nil => exact ⟨[], .nil⟩
  | cons x xs ih =>
    obtain ⟨z, hz⟩ := h x List.mem_cons_self
    obtain ⟨zs, hzs⟩ := ih fun x hx => h x (List.mem_cons_of_mem _ hx)
    exact ⟨z :: zs, .cons hz hzs⟩

/-- Pairs that agree in their keys have the same keys in all. -/
theorem map_fst_eq_of_forall₂ {R : String × α → String × β → Prop} {xs : List (String × α)}
    {ys : List (String × β)}
    (h : List.Forall₂ (fun e e' => e.1 = e'.1 ∧ R e e') xs ys) : xs.map Prod.fst = ys.map Prod.fst := by
  induction h with
  | nil => rfl
  | cons hhead _ ih => rw [List.map_cons, List.map_cons, hhead.1, ih]

/-- Pairs that agree in their keys still do so when only certain keys are kept. -/
theorem forall₂_filter {R : String × α → String × β → Prop} {xs : List (String × α)}
    {ys : List (String × β)} (p : String → Bool)
    (h : List.Forall₂ (fun e e' => e.1 = e'.1 ∧ R e e') xs ys) :
    List.Forall₂ (fun e e' => e.1 = e'.1 ∧ R e e') (xs.filter (p ·.1)) (ys.filter (p ·.1)) := by
  refine List.rel_filter ?_ h
  intro e e' hR
  simp only [hR.1]

end Lists

/-! ## Readings of a document -/

section Readings

variable {α β : Type} {jumps jumps' : Nat}

theorem run_bind_eq_ok_iff {x : ReadM α} {f : α → ReadM β} {jumps : Nat} {r : β × Nat} :
    (x >>= f).run jumps = .ok r ↔
      ∃ a jumps', x.run jumps = .ok (a, jumps') ∧ (f a).run jumps' = .ok r := by
  rw [StateT.run_bind]
  cases hx : x.run jumps with
  | error fault => exact ⟨fun h => (nomatch h), fun ⟨_, _, h, _⟩ => (nomatch h)⟩
  | ok p =>
    constructor
    · exact fun h => ⟨p.1, p.2, rfl, h⟩
    · rintro ⟨a, jumps', heq, h⟩
      obtain rfl := Except.ok.inj heq
      exact h

theorem run_locate_eq_ok_iff {path : Path} {x : ReadM α} {jumps : Nat} {r : α × Nat} :
    (locate path x).run jumps = .ok r ↔ x.run jumps = .ok r := by
  unfold locate
  dsimp only [StateT.run]
  split
  · rename_i fault hx
    rw [hx]
    exact ⟨fun h => (nomatch h), fun h => (nomatch h)⟩
  · exact Iff.rfl

theorem run_pure_eq_ok_iff {a b : α} :
    (pure a : ReadM α).run jumps = .ok (b, jumps') ↔ a = b ∧ jumps = jumps' := by
  constructor
  · intro h
    exact Prod.mk.inj (Except.ok.inj h)
  · rintro ⟨rfl, rfl⟩
    rfl

theorem run_refuse_ne_ok {fault : Fault} {r : α × Nat} :
    (refuse fault : ReadM α).run jumps ≠ .ok r :=
  fun h => nomatch h

theorem run_map_eq_ok_iff {x : ReadM α} {f : α → β} {b : β} :
    (f <$> x).run jumps = .ok (b, jumps') ↔ ∃ a, x.run jumps = .ok (a, jumps') ∧ f a = b := by
  rw [map_eq_pure_bind, run_bind_eq_ok_iff]
  constructor
  · rintro ⟨a, between, hx, h⟩
    obtain ⟨rfl, rfl⟩ := run_pure_eq_ok_iff.mp h
    exact ⟨a, hx, rfl⟩
  · rintro ⟨a, hx, rfl⟩
    exact ⟨a, jumps', hx, rfl⟩

theorem run_ofExcept_eq_ok_iff {x : Except Fault α} {a : α} :
    (ofExcept x).run jumps = .ok (a, jumps') ↔ x = .ok a ∧ jumps = jumps' := by
  cases x with
  | error fault => exact ⟨fun h => (nomatch h), fun ⟨h, _⟩ => (nomatch h)⟩
  | ok b => exact run_pure_eq_ok_iff.trans (and_congr_left fun _ => Except.ok.injEq b a ▸ Iff.rfl)

theorem readDocument_eq_ok_iff {read : Document → ReadM α} {text : String} {a : α} :
    readDocument read text = .ok a ↔
      ∃ d jumps, Document.read text = .ok d ∧ (read d).run 0 = .ok (a, jumps) := by
  rw [readDocument]
  cases hd : Document.read text with
  | error fault => exact ⟨fun h => (nomatch h), fun ⟨_, _, h, _⟩ => (nomatch h)⟩
  | ok d =>
    dsimp only
    cases hread : (read d).run 0 with
    | error fault =>
      refine ⟨fun h => (nomatch h), fun ⟨d', jumps, hd', h⟩ => ?_⟩
      obtain rfl := Except.ok.inj hd'
      exact nomatch hread.symm.trans h
    | ok p =>
      constructor
      · rintro h
        obtain rfl := Except.ok.inj h
        exact ⟨d, p.2, rfl, hread⟩
      · rintro ⟨d', jumps, hd', h⟩
        obtain rfl := Except.ok.inj hd'
        obtain rfl := Except.ok.inj (hread.symm.trans h)
        rfl

/-! ## Lists of readings -/

/-- Readings that follow no alias go through together if each does. -/
theorem run_mapM_of_forall₂ {f : α → ReadM β} {xs : List α} {ys : List β}
    (h : List.Forall₂ (fun x y => (f x).run jumps = .ok (y, jumps)) xs ys) :
    (xs.mapM f).run jumps = .ok (ys, jumps) := by
  induction h with
  | nil => rfl
  | cons hhead _ ih =>
    rw [List.mapM_cons, run_bind_eq_ok_iff]
    refine ⟨_, jumps, hhead, ?_⟩
    rw [run_bind_eq_ok_iff]
    exact ⟨_, jumps, ih, rfl⟩

/-- Each of several readings that go through together has gone through. -/
theorem forall₂_of_run_mapM {f : α → ReadM β} {xs : List α} {ys : List β}
    (h : (xs.mapM f).run jumps = .ok (ys, jumps')) :
    List.Forall₂ (fun x y => ∃ before after, (f x).run before = .ok (y, after)) xs ys := by
  induction xs generalizing jumps ys with
  | nil =>
    rw [List.mapM_nil, run_pure_eq_ok_iff] at h
    rw [← h.1]
    exact .nil
  | cons x xs ih =>
    rw [List.mapM_cons, run_bind_eq_ok_iff] at h
    obtain ⟨y, between, hhead, h⟩ := h
    rw [run_bind_eq_ok_iff] at h
    obtain ⟨rest, after, htail, h⟩ := h
    obtain ⟨rfl, rfl⟩ := run_pure_eq_ok_iff.mp h
    exact .cons ⟨_, _, hhead⟩ (ih htail)

end Readings

/-! ## Nodes behind aliases -/

namespace Yaml.Document

/-- The node that stands in a place: an alias stands for the node of its anchor. -/
def Resolves (d : Document) (node target : Node Nat) : Prop :=
  match node with
  | .alias number => d.target? number = some target
  | node => node = target

variable {d : Document} {jumps jumps' : Nat}

theorem Resolves.unique {node target target' : Node Nat} (h : d.Resolves node target)
    (h' : d.Resolves node target') : target = target' := by
  match node with
  | .alias number => exact Option.some.inj (h.symm.trans h')
  | .scalar .. | .sequence .. | .mapping .. => exact h.symm.trans h'

theorem resolves_of_run_follow {node target : Node Nat}
    (h : (d.follow node).run jumps = .ok (target, jumps')) : d.Resolves node target := by
  match node with
  | .alias number =>
    change (if d.size * 100 < jumps + 1 then _ else _) = _ at h
    split_ifs at h
    cases htarget : d.target? number with
    | none =>
      rw [htarget] at h
      exact nomatch h
    | some node =>
      rw [htarget] at h
      exact htarget.trans (congrArg some (Prod.mk.inj (Except.ok.inj h)).1)
  | .scalar .. | .sequence .. | .mapping .. => exact (run_pure_eq_ok_iff.mp h).1

/-- The node is a scalar with this text, whatever its tag and its style. -/
def IsKey (d : Document) (node : Node Nat) (text : String) : Prop :=
  ∃ anchor tag style, d.Resolves node (.scalar anchor tag text style)

theorem IsKey.unique {node : Node Nat} {text text' : String} (h : d.IsKey node text)
    (h' : d.IsKey node text') : text = text' := by
  obtain ⟨anchor, tag, style, h⟩ := h
  obtain ⟨anchor', tag', style', h'⟩ := h'
  exact (Node.scalar.inj (h.unique h')).2.2.1

end Yaml.Document

namespace Yaml.Place

variable {α : Type} {p q : Place} {jumps jumps' : Nat}

theorem run_follow_eq_ok_iff : p.follow.run jumps = .ok (q, jumps') ↔
    ∃ node, (p.document.follow p.node).run jumps = .ok (node, jumps') ∧ { p with node } = q := by
  rw [follow, run_bind_eq_ok_iff]
  constructor
  · rintro ⟨node, between, hnode, h⟩
    obtain ⟨rfl, rfl⟩ := run_pure_eq_ok_iff.mp h
    exact ⟨node, hnode, rfl⟩
  · rintro ⟨node, hnode, rfl⟩
    exact ⟨node, jumps', hnode, rfl⟩

/-- A text that is read in the place of a key is the text of a scalar there. -/
theorem isKey_of_run_readText {expected : Expected} {text : String}
    (h : (p.readText expected anyText).run jumps = .ok (text, jumps')) :
    p.document.IsKey p.node text := by
  rw [readText, run_locate_eq_ok_iff, run_bind_eq_ok_iff] at h
  obtain ⟨q, between, hfollow, h⟩ := h
  obtain ⟨node, hnode, rfl⟩ := run_follow_eq_ok_iff.mp hfollow
  cases node with
  | scalar anchor tag s style =>
    obtain ⟨hs, -⟩ := run_ofExcept_eq_ok_iff.mp h
    exact ⟨anchor, tag, style, Except.ok.inj hs ▸ Document.resolves_of_run_follow hnode⟩
  | _ => exact nomatch h

/-! ## Parts of collections -/

/-- The places of items do not depend on the node that they are said to be items of. -/
theorem itemPlaces_follow (p : Place) (node : Node Nat) (depth i : Nat) (items : List (Node Nat)) :
    { p with node }.itemPlaces depth i items = p.itemPlaces depth i items := by
  induction items generalizing i with
  | nil => rfl
  | cons item items ih => rw [itemPlaces, itemPlaces, ih]

/-- Items that are read without following an alias, each wherever it stands, are read together. -/
theorem run_mapM_itemPlaces_of_forall₂ {f : Place → ReadM α} {depth i : Nat} {items : List (Node Nat)}
    {as : List α} (h : List.Forall₂ (fun item a => ∀ path,
      (f ⟨p.document, path, depth, item⟩).run jumps = .ok (a, jumps)) items as) :
    ((p.itemPlaces depth i items).mapM f).run jumps = .ok (as, jumps) := by
  apply run_mapM_of_forall₂
  induction h generalizing i with
  | nil => exact .nil
  | cons hhead _ ih => exact .cons (hhead _) ih

/-- Each item of a list that is read has been read. -/
theorem forall₂_of_run_mapM_itemPlaces {f : Place → ReadM α} {depth i : Nat}
    {items : List (Node Nat)} {as : List α}
    (h : ((p.itemPlaces depth i items).mapM f).run jumps = .ok (as, jumps')) :
    List.Forall₂ (fun item a => ∃ path before after,
      (f ⟨p.document, path, depth, item⟩).run before = .ok (a, after)) items as := by
  have hplaces := forall₂_of_run_mapM h
  clear h
  induction items generalizing i as with
  | nil => exact List.forall₂_nil_left_iff.mp hplaces ▸ .nil
  | cons item items ih =>
    obtain ⟨a, rest, ⟨before, after, hhead⟩, htail, rfl⟩ := List.forall₂_cons_left_iff.mp hplaces
    exact .cons ⟨_, before, after, hhead⟩ (ih htail)

/-- The items of a list, and none of a node without content; no other node has items. -/
theorem run_items_eq_ok_iff {places : List Place} : p.items.run jumps = .ok (places, jumps') ↔
    jumps = jumps' ∧ ((∃ depth anchor tag items, p.depth = depth + 1 ∧
      p.node = .sequence anchor tag items ∧ p.itemPlaces depth 0 items = places) ∨
        isMissing p.node = true ∧ places = []) := by
  obtain ⟨d, path, depth, node⟩ := p
  cases node with
  | sequence anchor tag items =>
    cases depth with
    | zero => simp [Place.items, run_refuse_ne_ok, isMissing]
    | succ depth =>
      dsimp only [Place.items]
      rw [run_pure_eq_ok_iff]
      simp [isMissing, and_comm]
  | _ =>
    dsimp only [items]
    split_ifs with hmissing
    · rw [run_pure_eq_ok_iff]
      simp [hmissing, and_comm, eq_comm]
    · simp [run_refuse_ne_ok, hmissing]

/-- The pairs of a mapping, and none of a node without content; no other node has pairs. -/
theorem run_pairs_eq_ok_iff {expected : Expected} {places : List (Place × Place)} :
    (p.pairs expected).run jumps = .ok (places, jumps') ↔
      jumps = jumps' ∧ ((∃ depth anchor tag pairs, p.depth = depth + 1 ∧
        p.node = .mapping anchor tag pairs ∧ p.pairPlaces depth pairs = places) ∨
          isMissing p.node = true ∧ places = []) := by
  obtain ⟨d, path, depth, node⟩ := p
  cases node with
  | mapping anchor tag pairs =>
    cases depth with
    | zero => simp [Place.pairs, run_refuse_ne_ok, isMissing]
    | succ depth =>
      dsimp only [Place.pairs]
      rw [run_pure_eq_ok_iff]
      simp [isMissing, and_comm]
  | _ =>
    dsimp only [pairs]
    split_ifs with hmissing
    · rw [run_pure_eq_ok_iff]
      simp [hmissing, and_comm, eq_comm]
    · simp [run_refuse_ne_ok, hmissing]

/-- Each item of a sequence that is read as a list has been read. -/
theorem forall₂_of_run_readList {read : Place → ReadM α} {as : List α} {anchor : Option Nat}
    {tag : Option String} {items : List (Node Nat)}
    (h : (p.readList read).run jumps = .ok (as, jumps'))
    (hnode : p.document.Resolves p.node (.sequence anchor tag items)) :
    List.Forall₂ (fun item a => ∃ path depth before after,
      (read ⟨p.document, path, depth, item⟩).run before = .ok (a, after)) items as := by
  rw [readList, run_locate_eq_ok_iff, run_bind_eq_ok_iff] at h
  obtain ⟨q, between, hfollow, h⟩ := h
  obtain ⟨node, hresolves, rfl⟩ := run_follow_eq_ok_iff.mp hfollow
  obtain rfl := (Document.resolves_of_run_follow hresolves).unique hnode
  obtain ⟨places, between', hplaces, hread⟩ := run_bind_eq_ok_iff.mp h
  rcases (run_items_eq_ok_iff.mp hplaces).2 with ⟨depth, _, _, _, -, heq, rfl⟩ | ⟨hmissing, -⟩
  · obtain ⟨-, -, rfl⟩ := Node.sequence.inj heq
    refine (forall₂_of_run_mapM_itemPlaces hread).imp ?_
    rintro item a ⟨path, before, after, hitem⟩
    exact ⟨path, depth, before, after, hitem⟩
  · exact absurd hmissing Bool.false_ne_true

/-- A sequence is read as a list if each of its items is read without following an alias. -/
theorem run_readList_of_forall₂ {read : Place → ReadM α} {d : Document} {path : Path} {depth : Nat}
    {anchor : Option Nat} {tag : Option String} {items : List (Node Nat)} {as : List α}
    (h : List.Forall₂ (fun item a => ∀ path,
      (read ⟨d, path, depth, item⟩).run jumps = .ok (a, jumps)) items as) :
    (readList read ⟨d, path, depth + 1, .sequence anchor tag items⟩).run jumps = .ok (as, jumps) := by
  rw [readList, run_locate_eq_ok_iff, run_bind_eq_ok_iff]
  refine ⟨_, jumps, run_follow_eq_ok_iff.mpr ⟨_, rfl, rfl⟩, run_bind_eq_ok_iff.mpr ?_⟩
  refine ⟨_, jumps, run_items_eq_ok_iff.mpr ⟨rfl, .inl ⟨depth, _, _, _, rfl, rfl, rfl⟩⟩, ?_⟩
  exact run_mapM_itemPlaces_of_forall₂ h

end Yaml.Place

end Redeclare
