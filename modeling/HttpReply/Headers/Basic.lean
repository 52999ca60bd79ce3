import HttpReply.Text.Layout

/-!
The headers of a response under construction: texts under distinct keys, listed in the order in
which the keys arrived. Keys are compared exactly; `a` and `A` are two keys.
-/

namespace HttpReply

/-- Replace the value of a key where it stands, or append the key with its value. -/
def setEntry (key value : String) : List (String × String) → List (String × String)
  | [] => [(key, value)]
  | entry :: rest =>
    if entry.1 = key then (key, value) :: rest else entry :: setEntry key value rest

theorem keys_setEntry_of_mem {key : String} (value : String) {entries : List (String × String)}
    (h : key ∈ entries.map Prod.fst) :
    (setEntry key value entries).map Prod.fst = entries.map Prod.fst := by
  induction entries with
  | nil => simp at h
  | cons entry rest ih =>
      by_cases hKey : entry.1 = key
      · simp [setEntry, hKey]
      · have hRest : key ∈ rest.map Prod.fst := by
          rcases List.mem_cons.mp h with hEq | hRest
          · exact absurd hEq.symm hKey
          · exact hRest
        simp only [setEntry, if_neg hKey, List.map_cons, ih hRest]

theorem setEntry_of_not_mem {key : String} (value : String) {entries : List (String × String)}
    (h : key ∉ entries.map Prod.fst) :
    setEntry key value entries = entries ++ [(key, value)] := by
  induction entries with
  | nil => rfl
  | cons entry rest ih =>
      simp only [List.map_cons, List.mem_cons, not_or] at h
      simp only [setEntry, if_neg (Ne.symm h.1), ih h.2, List.cons_append]

theorem nodup_keys_setEntry (key value : String) {entries : List (String × String)}
    (h : (entries.map Prod.fst).Nodup) : ((setEntry key value entries).map Prod.fst).Nodup := by
  by_cases hKey : key ∈ entries.map Prod.fst
  · rwa [keys_setEntry_of_mem value hKey]
  · rw [setEntry_of_not_mem value hKey, List.map_append, List.nodup_append]
    refine ⟨h, by simp, fun k hk => ?_⟩
    simp only [List.map_cons, List.map_nil, List.mem_singleton, forall_eq]
    rintro rfl
    exact hKey hk

/-- Header texts under distinct keys, in the order of arrival. -/
structure Headers where
  entries : List (String × String)
  nodup_keys : (entries.map Prod.fst).Nodup

namespace Headers

def contentLength : String := "Content-Length"

def contentType : String := "Content-Type"

def empty : Headers := ⟨[], List.nodup_nil⟩

/-- Store the text of `value` under the text of `key`. A key that is present keeps its place. -/
def set {κ ν : Type} [ToString κ] [ToString ν] (headers : Headers) (key : κ) (value : ν) :
    Headers where
  entries := setEntry (toString key) (toString value) headers.entries
  nodup_keys := nodup_keys_setEntry _ _ headers.nodup_keys

/-- The text stored under a key. -/
def get? (headers : Headers) (key : String) : Option String :=
  headers.entries.lookup key

def contains (headers : Headers) (key : String) : Bool :=
  (headers.get? key).isSome

/-- Forget a key. The other entries keep their order and close the gap. -/
def erase (headers : Headers) (key : String) : Headers where
  entries := headers.entries.filter (·.1 ≠ key)
  nodup_keys := headers.nodup_keys.sublist (List.filter_sublist.map _)

/-- Forget a key, and answer the text it had. -/
def remove (headers : Headers) (key : String) : Option String × Headers :=
  (headers.get? key, headers.erase key)

def keys (headers : Headers) : List String :=
  headers.entries.map Prod.fst

def size (headers : Headers) : Nat :=
  headers.entries.length

def isEmpty (headers : Headers) : Bool :=
  headers.entries.isEmpty

/-- Set the pairs one after the other: a key stands where it first occurs, with the value of its
last occurrence. -/
def ofPairs {κ ν : Type} [ToString κ] [ToString ν] (pairs : List (κ × ν)) : Headers :=
  pairs.foldl (fun headers pair => headers.set pair.1 pair.2) empty

/-- Equality that disregards the order: as many entries on both sides, and every entry of the
left side found on the right. -/
def sameEntries (a b : Headers) : Bool :=
  a.size == b.size && a.entries.all fun entry => b.get? entry.1 == some entry.2

instance : BEq Headers := ⟨sameEntries⟩

open Text

/-- A description of headers that stand at `depth` within a larger one. -/
def describeAt (headers : Headers) (layout : Layout) (depth : Nat) (hidden : Char → Bool) :
    List Char :=
  layout.enclose (Frame.record "HttpHeaders") depth
    [labelled "headers".toList <| layout.enclose Frame.map (depth + 1) <|
      headers.entries.map fun entry => labelled (quoted hidden entry.1) (quoted hidden entry.2)]

def describe (headers : Headers) (layout : Layout) (hidden : Char → Bool := isUnprintable) :
    String :=
  String.ofList (headers.describeAt layout 0 hidden)

end Headers

end HttpReply
