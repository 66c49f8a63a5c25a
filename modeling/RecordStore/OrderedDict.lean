import RecordStore.Dict

/-!
# Dictionaries known to be in order

A dictionary together with the fact that its names increase.  Two of them with the same look-ups are
equal (`ext`), so how one was built cannot be told from it.
-/

namespace RecordStore

/-- A dictionary whose names are in strictly increasing order. -/
structure OrderedDict (α : Type) extends Dict α where
  sorted : toDict.Sorted
deriving DecidableEq

namespace OrderedDict

variable {α : Type}

/-- The dictionary that binds nothing. -/
def empty : OrderedDict α := ⟨.empty, Dict.sorted_empty⟩

instance : EmptyCollection (OrderedDict α) := ⟨empty⟩

instance : Inhabited (OrderedDict α) := ⟨empty⟩

/-- Binds a name to a value, over any earlier binding of that name. -/
def insert (d : OrderedDict α) (k : String) (v : α) : OrderedDict α :=
  ⟨d.toDict.insert k v, Dict.sorted_insert d.sorted k v⟩

/-- Removes the binding of a name. -/
def erase (d : OrderedDict α) (k : String) : OrderedDict α :=
  ⟨d.toDict.erase k, Dict.sorted_erase d.sorted k⟩

/-- The dictionary of a list of bindings; of two bindings of a name the later one counts. -/
def ofList (bindings : List (String × α)) : OrderedDict α :=
  ⟨Dict.ofList bindings, Dict.sorted_ofList bindings⟩

/-- The bindings of both dictionaries; where both bind a name the second one counts. -/
def union (d e : OrderedDict α) : OrderedDict α :=
  ⟨d.toDict.union e.toDict, Dict.sorted_union d.sorted e.toDict⟩

/-- Two dictionaries with the same look-ups are equal. -/
theorem ext {d e : OrderedDict α} (h : ∀ k, d.get? k = e.get? k) : d = e := by
  obtain ⟨d, hd⟩ := d
  obtain ⟨e, he⟩ := e
  obtain rfl := Dict.ext hd he h
  rfl

@[simp] theorem get?_empty (k : String) : (empty : OrderedDict α).get? k = none := rfl

@[simp] theorem get?_insert (d : OrderedDict α) (k : String) (v : α) (k' : String) :
    (d.insert k v).get? k' = if k' = k then some v else d.get? k' :=
  Dict.get?_insert d.toDict k v k'

@[simp] theorem get?_erase (d : OrderedDict α) (k k' : String) :
    (d.erase k).get? k' = if k' = k then none else d.get? k' :=
  Dict.get?_erase d.toDict k k'

/-- No name is bound twice. -/
theorem nodup_keys (d : OrderedDict α) : d.keys.Nodup :=
  d.sorted.imp fun {a b} h => by rintro rfl; simp [Std.ReflCmp.compare_self] at h

@[simp] theorem get?_union (d e : OrderedDict α) (k : String) :
    (d.union e).get? k = (e.get? k).or (d.get? k) :=
  Dict.get?_union d.toDict e.toDict e.nodup_keys k

end OrderedDict

end RecordStore
