import RecordStore.Proofs.Dict
import RecordStore.Proofs.Repository.Operations

/-!
# Identifiers of roots

The key of a root is a kind, a delimiter and the rest, and the rest is the identifier, whatever further
delimiters it holds.  Reading a record as an entity enters the identifier as an attribute and changes
nothing else, so that reading what has been read gives the same entity.

* `Splits` — a key as its kind and the rest;
* `idOfKey_eq_join` — the identifier is what is left of the parts of a key without the first one;
* `Entity.Normalizes` — what there is to know about the entity of a record;
* `Entity.normalizes_and_separates` — every record with texts as its keys has such an entity, and roots
  of one kind with different keys have different identifiers.
-/

namespace RecordStore

/-- A key is a kind without a delimiter in it, a delimiter, and the rest. -/
def Splits (delimiter : Char) (key kind rest : String) : Prop :=
  delimiter ∉ kind.toList ∧ key = kind ++ delimiter.toString ++ rest

instance (delimiter : Char) (key kind rest : String) : Decidable (Splits delimiter key kind rest) :=
  inferInstanceAs (Decidable (_ ∧ _))

section Keys

variable {delimiter : Char} {key kind rest : String}

theorem Splits.toList_eq (h : Splits delimiter key kind rest) :
    key.toList = kind.toList ++ delimiter :: rest.toList := by
  rw [h.2]
  simp

/-- The identifier of a key is the rest after its kind. -/
theorem Splits.idOfKey_eq (h : Splits delimiter key kind rest) : idOfKey key delimiter = rest := by
  have hkey : key = String.ofList (kind.toList ++ delimiter :: rest.toList) := by
    rw [← h.toList_eq, String.ofList_toList]
  rw [hkey, idOfKey_append h.1, String.ofList_toList]

/-- A key with a delimiter in it splits at the first one. -/
theorem exists_splits (h : delimiter ∈ key.toList) : ∃ kind rest, Splits delimiter key kind rest := by
  obtain ⟨before, after, hkey, hbefore⟩ := List.eq_append_cons_of_mem h
  refine ⟨String.ofList before, String.ofList after, by rwa [String.toList_ofList], ?_⟩
  apply String.toList_injective
  simp [hkey]

/-- A key without a delimiter in it has an empty identifier. -/
theorem idOfKey_of_notMem (h : delimiter ∉ key.toList) : idOfKey key delimiter = "" := by
  have hdrop : key.toList.dropWhile (fun c => c ≠ delimiter) = [] := by
    rw [← List.append_nil key.toList, List.dropWhile_append_of_pos]
    · rfl
    · intro c hc
      have hne : c ≠ delimiter := by
        rintro rfl
        exact h hc
      simpa using hne
  rw [idOfKey, hdrop]
  rfl

/-- **The identifier as parts of the key**: the key is cut at every delimiter, the first part is left
out, and the other ones are joined by delimiters again. -/
theorem idOfKey_eq_join (key : String) (delimiter : Char) :
    idOfKey key delimiter =
      String.ofList ([delimiter].intercalate ((key.toList.splitOn delimiter).drop 1)) := by
  by_cases h : delimiter ∈ key.toList
  · obtain ⟨kind, rest, hsplits⟩ := exists_splits h
    have hparts : key.toList.splitOn delimiter = kind.toList :: rest.toList.splitOn delimiter := by
      rw [hsplits.toList_eq, List.splitOn_append_cons_self, List.splitOn_eq_singleton hsplits.1]
      rfl
    rw [hsplits.idOfKey_eq, hparts, List.drop_one, List.tail_cons, List.intercalate_splitOn,
      String.ofList_toList]
  · rw [idOfKey_of_notMem h, List.splitOn_eq_singleton h]
    rfl

end Keys

namespace Entity

variable {delimiter : Char} {item : Item} {source target : String}

/-- What there is to know about the entity of a record with two keys. -/
structure Normalizes (delimiter : Char) (item : Item) (source target : String) (e : Entity) :
    Prop where
  keys : e.source = source ∧ e.target = target
  /-- The identifier of a root is the rest of its key, all of it. -/
  id_of_splits : source = target → ∀ kind rest, Splits delimiter source kind rest → e.id? = some rest
  /-- The identifier of a root whose key has no delimiter is empty. -/
  id_of_notMem : source = target → delimiter ∉ source.toList → e.id? = some ""
  /-- A root has its identifier as an attribute. -/
  stored : source = target →
    ∃ id, e.id? = some id ∧ e.item = item.insert Attribute.id (.string id)
  /-- An edge has no identifier, and its record is as it was. -/
  edge : source ≠ target → e.id? = none ∧ e.item = item
  /-- No other attribute is changed. -/
  frame : ∀ name, name ≠ Attribute.id → e.item.get? name = item.get? name
  /-- Reading the entity's record again gives the same entity. -/
  again : ofItem delimiter e.item = .ok e

/-- An identifier among the attributes does not change what a record is read as. -/
theorem ofItem_insert_id (h : item.HasKeys source source) (v : Value) :
    ofItem delimiter (item.insert Attribute.id v) = ofItem delimiter item := by
  have hkeep {name : String} (hname : name ≠ Attribute.id) :
      (item.insert Attribute.id v).get? name = item.get? name := by
    rw [Dict.get?_insert, if_neg hname]
  have hkeys : Item.HasKeys (item.insert Attribute.id v) source source :=
    ⟨(hkeep (by decide)).trans h.1, (hkeep (by decide)).trans h.2⟩
  rw [ofItem_of_hasKeys h, ofItem_of_hasKeys hkeys, if_pos rfl, if_pos rfl, Dict.insert_insert]

theorem normalizes_of_ofItem {e : Entity} (h : item.HasKeys source target)
    (he : ofItem delimiter item = .ok e) : e.Normalizes delimiter item source target := by
  have heq := he
  rw [ofItem_of_hasKeys h] at heq
  by_cases hroot : source = target
  · subst hroot
    rw [if_pos rfl] at heq
    obtain rfl := Except.ok.inj heq
    exact {
      keys := ⟨rfl, rfl⟩
      id_of_splits := fun _ kind rest hsplits => congrArg some hsplits.idOfKey_eq
      id_of_notMem := fun _ hnone => congrArg some (idOfKey_of_notMem hnone)
      stored := fun _ => ⟨_, rfl, rfl⟩
      edge := fun hne => absurd rfl hne
      frame := fun name hname => by simp [withTimes, hname]
      again := (ofItem_insert_id h _).trans he }
  · rw [if_neg hroot] at heq
    obtain rfl := Except.ok.inj heq
    exact {
      keys := ⟨rfl, rfl⟩
      id_of_splits := fun hsame => absurd hsame hroot
      id_of_notMem := fun hsame => absurd hsame hroot
      stored := fun hsame => absurd hsame hroot
      edge := fun _ => ⟨rfl, rfl⟩
      frame := fun _ _ => rfl
      again := he }

/-- **What reading a record as an entity does to it**: a record with two texts as its keys is an entity.
A root has the rest of its key as its identifier, in place of any attribute of that name, and nothing
else is changed, so that the entity's record gives the same entity again.  Two roots of one kind with
different keys have different identifiers. -/
theorem normalizes_and_separates (delimiter : Char) :
    (∀ item source target, Item.HasKeys item source target →
      ∃ e, ofItem delimiter item = .ok e ∧ e.Normalizes delimiter item source target) ∧
    ∀ item₁ item₂ source₁ source₂ kind rest₁ rest₂,
      Item.HasKeys item₁ source₁ source₁ → Item.HasKeys item₂ source₂ source₂ →
      Splits delimiter source₁ kind rest₁ → Splits delimiter source₂ kind rest₂ → source₁ ≠ source₂ →
      ∃ e₁ e₂, ofItem delimiter item₁ = .ok e₁ ∧ ofItem delimiter item₂ = .ok e₂ ∧
        e₁.id? ≠ e₂.id? := by
  have hread (item : Item) (source target : String) (h : item.HasKeys source target) :
      ∃ e, ofItem delimiter item = .ok e ∧ e.Normalizes delimiter item source target := by
    obtain ⟨e, he⟩ := h.exists_entity delimiter
    exact ⟨e, he, normalizes_of_ofItem h he⟩
  refine ⟨hread, ?_⟩
  intro item₁ item₂ source₁ source₂ kind rest₁ rest₂ h₁ h₂ hsplits₁ hsplits₂ hne
  obtain ⟨e₁, he₁, hnorm₁⟩ := hread item₁ source₁ source₁ h₁
  obtain ⟨e₂, he₂, hnorm₂⟩ := hread item₂ source₂ source₂ h₂
  refine ⟨e₁, e₂, he₁, he₂, ?_⟩
  rw [hnorm₁.id_of_splits rfl kind rest₁ hsplits₁, hnorm₂.id_of_splits rfl kind rest₂ hsplits₂]
  intro hsame
  obtain rfl := Option.some.inj hsame
  exact hne (hsplits₁.2.trans hsplits₂.2.symm)

/-- A root with delimiters at both ends of its rest and an attribute in the way, another root of its
kind, and an edge. -/
theorem normalizes_and_separates_documents :
    let first : Item :=
      .ofList [("source", .string "doc##a#"), ("target", .string "doc##a#"), ("id", .number "7")]
    let second : Item := .ofList [("source", .string "doc#a#"), ("target", .string "doc#a#")]
    let edge : Item := .ofList [("source", .string "doc#a#"), ("target", .string "tag")]
    (∃ e, ofItem '#' first = .ok e ∧ e.id? = some "#a#" ∧
      e.item.get? "source" = some (.string "doc##a#") ∧ ofItem '#' e.item = .ok e) ∧
    (∃ e, ofItem '#' edge = .ok e ∧ e.id? = none ∧ e.item = edge) ∧
    ∃ e₁ e₂, ofItem '#' first = .ok e₁ ∧ ofItem '#' second = .ok e₂ ∧ e₁.id? ≠ e₂.id? := by
  intro first second edge
  obtain ⟨hread, hseparates⟩ := normalizes_and_separates '#'
  obtain ⟨e, he, hnorm⟩ := hread first "doc##a#" "doc##a#" (by decide)
  obtain ⟨e', he', hnorm'⟩ := hread edge "doc#a#" "tag" (by decide)
  refine ⟨⟨e, he, hnorm.id_of_splits rfl "doc" "#a#" (by decide), ?_, hnorm.again⟩,
    ⟨e', he', hnorm'.edge (by decide)⟩, ?_⟩
  · exact (hnorm.frame "source" (by decide)).trans (by decide)
  · exact hseparates first second "doc##a#" "doc#a#" "doc" "#a#" "a#" (by decide) (by decide)
      (by decide) (by decide) (by decide)

end Entity

end RecordStore
