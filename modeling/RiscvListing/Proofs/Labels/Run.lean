import RiscvListing.Proofs.Text.Numeral
import RiscvListing.Proofs.Labels.Discovery

namespace RiscvListing.Labels

theorem syntheticName_inj {first second : Nat} :
    syntheticName first = syntheticName second ↔ first = second := by
  rw [syntheticName, syntheticName, ← Text.decimal_inj, ← String.toList_inj, ← String.toList_inj,
    String.toList_append, String.toList_append, List.append_cancel_left_eq]

/-- A call that changes labels: it names an address, it sees to it that an address has a name, or it
does so for all targets of a program. -/
inductive Call where
  | insert (address : Address) (name : String)
  | ensure (address : Address)
  | discover (code : List CodeWord)

def Call.apply (labels : Labels) : Call → Labels
  | insert address name => labels.insert address name
  | ensure address => labels.ensure address
  | discover code => labels.discover code

def run (calls : List Call) : Labels :=
  calls.foldl Call.apply empty

/-- A step of a call, which deals with a single address. -/
inductive Edit where
  | insert (address : Address) (name : String)
  | ensure (address : Address)

namespace Edit

def address : Edit → Address
  | insert address _ => address
  | ensure address => address

def isEnsure : Edit → Bool
  | insert _ _ => false
  | ensure _ => true

def apply (labels : Labels) : Edit → Labels
  | insert address name => labels.insert address name
  | ensure address => labels.ensure address

end Edit

def Call.edits : Call → List Edit
  | insert address name => [.insert address name]
  | ensure address => [.ensure address]
  | discover code => (code.filterMap CodeWord.target?).map .ensure

theorem Call.apply_eq (labels : Labels) (call : Call) :
    call.apply labels = call.edits.foldl Edit.apply labels := by
  cases call with
  | insert address name => rfl
  | ensure address => rfl
  | discover code => rw [edits, List.foldl_map]; rfl

theorem foldl_apply_eq (labels : Labels) (calls : List Call) :
    calls.foldl Call.apply labels = (calls.flatMap Call.edits).foldl Edit.apply labels := by
  have step : Call.apply = fun labels call => call.edits.foldl Edit.apply labels :=
    funext fun labels => funext (Call.apply_eq labels)
  rw [step, List.foldl_flatMap]

variable (labels : Labels)

theorem contains_insert (address other : Address) (name : String) :
    (labels.insert address name).contains other = (address == other || labels.contains other) := by
  rw [contains_eq_isSome, get?_insert, contains_eq_isSome]
  by_cases same : address = other
  · simp [same]
  · simp [same]

theorem contains_apply (edit : Edit) (other : Address) :
    (edit.apply labels).contains other = (edit.address == other || labels.contains other) := by
  cases edit with
  | insert address name => exact labels.contains_insert address other name
  | ensure address =>
    cases known : labels.contains address with
    | false => exact contains_ensure_of_not_contains known other
    | true =>
      rw [Edit.apply, ensure_of_contains known, Edit.address]
      by_cases same : address = other
      · simp [← same, known]
      · simp [same]

theorem size_apply (edit : Edit) :
    (edit.apply labels).size =
      if labels.contains edit.address then labels.size else labels.size + 1 := by
  cases edit with
  | insert address name => exact Std.TreeMap.size_insert
  | ensure address =>
    rw [Edit.apply, ensure, Edit.address]
    split
    next => rfl
    next fresh => exact Std.TreeMap.size_insert.trans (if_neg fresh)

variable {labels}

theorem get?_apply_of_get? {address : Address} {name : String}
    (named : labels.get? address = some name) {edit : Edit}
    (other : ∀ replaced, edit ≠ .insert address replaced) :
    (edit.apply labels).get? address = some name := by
  cases edit with
  | insert place new =>
    have apart : place ≠ address := by
      rintro rfl
      exact other new rfl
    rw [Edit.apply, get?_insert, if_neg apart, named]
  | ensure place =>
    have kept := get?_foldl_ensure labels [place] address
    rw [named] at kept
    exact kept

theorem get?_foldl_of_get? {address : Address} {name : String} {edits : List Edit}
    (named : labels.get? address = some name)
    (others : ∀ replaced, .insert address replaced ∉ edits) :
    (edits.foldl Edit.apply labels).get? address = some name := by
  induction edits generalizing labels with
  | nil => exact named
  | cons edit edits ih =>
    apply ih
    · apply get?_apply_of_get? named
      rintro replaced rfl
      exact others replaced (List.mem_cons_self)
    · intro replaced member
      exact others replaced (List.mem_cons_of_mem _ member)

theorem contains_foldl_of_contains {address : Address} (edits : List Edit)
    (known : labels.contains address = true) :
    (edits.foldl Edit.apply labels).contains address = true := by
  induction edits generalizing labels with
  | nil => exact known
  | cons edit edits ih =>
    apply ih
    rw [contains_apply, known, Bool.or_true]

/-- The edits that meet an address without a name, each with the labels that it leaves. -/
def firsts (labels : Labels) : List Edit → List (Edit × Labels)
  | [] => []
  | edit :: edits =>
    if labels.contains edit.address then (edit.apply labels).firsts edits
    else (edit, edit.apply labels) :: (edit.apply labels).firsts edits

theorem firsts_cons_of_contains {edit : Edit} (known : labels.contains edit.address = true)
    (edits : List Edit) :
    labels.firsts (edit :: edits) = (edit.apply labels).firsts edits := by
  rw [firsts, if_pos known]

theorem firsts_cons_of_not_contains {edit : Edit}
    (fresh : labels.contains edit.address = false) (edits : List Edit) :
    labels.firsts (edit :: edits) =
      (edit, edit.apply labels) :: (edit.apply labels).firsts edits := by
  rw [firsts, fresh]
  rfl

theorem size_foldl_apply (labels : Labels) (edits : List Edit) :
    (edits.foldl Edit.apply labels).size = labels.size + (labels.firsts edits).length := by
  induction edits generalizing labels with
  | nil => rfl
  | cons edit edits ih =>
    rw [List.foldl_cons, ih, size_apply]
    cases known : labels.contains edit.address with
    | true => rw [firsts_cons_of_contains known, if_pos rfl]
    | false =>
      rw [firsts_cons_of_not_contains known, if_neg Bool.false_ne_true, List.length_cons]
      omega

theorem contains_eq_false_of_mem_firsts {labels : Labels} {edits : List Edit}
    {first : Edit × Labels} (member : first ∈ labels.firsts edits) :
    labels.contains first.1.address = false := by
  induction edits generalizing labels with
  | nil => cases member
  | cons edit edits ih =>
    have before : first ∈ (edit.apply labels).firsts edits →
        labels.contains first.1.address = false := by
      intro later
      have unnamed := ih later
      rw [contains_apply, Bool.or_eq_false_iff] at unnamed
      exact unnamed.2
    cases known : labels.contains edit.address with
    | true =>
      rw [firsts_cons_of_contains known] at member
      exact before member
    | false =>
      rw [firsts_cons_of_not_contains known] at member
      rcases List.mem_cons.mp member with rfl | later
      · exact known
      · exact before later

theorem nodup_firsts (labels : Labels) (edits : List Edit) :
    ((labels.firsts edits).map fun first => first.1.address).Nodup := by
  induction edits generalizing labels with
  | nil => exact List.nodup_nil
  | cons edit edits ih =>
    cases known : labels.contains edit.address with
    | true =>
      rw [firsts_cons_of_contains known]
      exact ih (edit.apply labels)
    | false =>
      rw [firsts_cons_of_not_contains known, List.map_cons, List.nodup_cons]
      refine ⟨?_, ih (edit.apply labels)⟩
      intro again
      obtain ⟨later, member, same⟩ := List.mem_map.mp again
      have unnamed := contains_eq_false_of_mem_firsts member
      rw [contains_apply, same] at unnamed
      simp at unnamed

/-- The requests for a name that met an address without one. -/
def asked (labels : Labels) (edits : List Edit) : List (Edit × Labels) :=
  (labels.firsts edits).filter fun first => first.1.isEnsure

/-- The names that were given for an address without one. -/
def introduced (labels : Labels) (edits : List Edit) : List (Edit × Labels) :=
  (labels.firsts edits).filter fun first => !first.1.isEnsure

theorem length_firsts (labels : Labels) (edits : List Edit) :
    (labels.firsts edits).length =
      (labels.asked edits).length + (labels.introduced edits).length := by
  rw [asked, introduced, ← List.countP_eq_length_filter, ← List.countP_eq_length_filter,
    List.length_eq_countP_add_countP fun first : Edit × Labels => first.1.isEnsure]
  simp

theorem asked_cons_insert (labels : Labels) (address : Address) (name : String)
    (edits : List Edit) :
    labels.asked (.insert address name :: edits) = (labels.insert address name).asked edits := by
  rw [asked, firsts]
  split <;> rfl

theorem asked_cons_ensure_of_contains {labels : Labels} {address : Address}
    (known : labels.contains address = true) (edits : List Edit) :
    labels.asked (.ensure address :: edits) = labels.asked edits := by
  rw [asked, firsts_cons_of_contains known, Edit.apply, ensure_of_contains known, asked]

theorem asked_cons_ensure_of_not_contains {labels : Labels} {address : Address}
    (fresh : labels.contains address = false) (edits : List Edit) :
    labels.asked (.ensure address :: edits) =
      (.ensure address, labels.ensure address) :: (labels.ensure address).asked edits := by
  rw [asked, firsts_cons_of_not_contains fresh]
  rfl

theorem synthetic_foldl_apply (labels : Labels) (edits : List Edit) :
    (edits.foldl Edit.apply labels).synthetic =
      labels.synthetic + (labels.asked edits).length := by
  induction edits generalizing labels with
  | nil => rfl
  | cons edit edits ih =>
    rw [List.foldl_cons, ih]
    cases edit with
    | insert address name =>
      rw [asked_cons_insert]
      rfl
    | ensure address =>
      cases known : labels.contains address with
      | true => rw [asked_cons_ensure_of_contains known, Edit.apply, ensure_of_contains known]
      | false =>
        rw [asked_cons_ensure_of_not_contains known, Edit.apply,
          synthetic_ensure_of_not_contains known, List.length_cons]
        omega

theorem map_asked (labels : Labels) (edits : List Edit) :
    (labels.asked edits).map (fun first => first.2.get? first.1.address) =
      (List.range' labels.synthetic (labels.asked edits).length).map fun number =>
        some (syntheticName number) := by
  induction edits generalizing labels with
  | nil => rfl
  | cons edit edits ih =>
    cases edit with
    | insert address name =>
      rw [asked_cons_insert]
      exact ih (labels.insert address name)
    | ensure address =>
      cases known : labels.contains address with
      | true =>
        rw [asked_cons_ensure_of_contains known]
        exact ih labels
      | false =>
        have later := ih (labels.ensure address)
        have given := get?_ensure_of_not_contains known address
        rw [synthetic_ensure_of_not_contains known] at later
        rw [if_pos rfl] at given
        rw [asked_cons_ensure_of_not_contains known, List.map_cons, later, List.length_cons,
          List.range'_succ, List.map_cons, Edit.address, given]

theorem pairwise_toList (labels : Labels) :
    labels.toList.Pairwise fun first second => first.1 < second.1 := by
  have ordered := Std.TreeMap.ordered_keys_toList (t := labels.names)
  refine ordered.imp fun before => ?_
  exact compareOfLessAndEq_eq_lt.mp before

theorem mem_toList_iff (labels : Labels) (address : Address) (name : String) :
    (address, name) ∈ labels.toList ↔ labels.get? address = some name :=
  Std.TreeMap.mem_toList_iff_getElem?_eq_some

theorem size_le (labels : Labels) : labels.size ≤ 2 ^ 32 := by
  have distinct : labels.names.keys.Nodup := Std.TreeMap.nodup_keys
  have inside : labels.names.keys ⊆ (List.range (2 ^ 32)).map (BitVec.ofNat 32) := by
    intro address _
    exact List.mem_map.mpr ⟨address.toNat, List.mem_range.mpr address.isLt, by simp⟩
  have bound := distinct.length_le_of_subset inside
  rw [List.length_map, Std.TreeMap.length_keys, List.length_range] at bound
  exact bound

/-- The list of all labels is in order and says the same as the other views of them. -/
structure Coherent (labels : Labels) : Prop where
  sorted : labels.toList.Pairwise fun first second => first.1 < second.1
  names : ∀ address name, (address, name) ∈ labels.toList ↔ labels.get? address = some name
  known : ∀ address, labels.contains address = true ↔ ∃ name, (address, name) ∈ labels.toList
  length : labels.toList.length = labels.size

theorem coherent (labels : Labels) : labels.Coherent where
  sorted := labels.pairwise_toList
  names := labels.mem_toList_iff
  known := by
    intro address
    rw [contains_eq_isSome, Option.isSome_iff_exists]
    simp only [mem_toList_iff]
  length := Std.TreeMap.length_toList

/-- How a run comes to its names: the requests that meet an address without a name are numbered
one after another, and all other addresses were first named by an insertion. -/
structure Accounted (calls : List Call) : Prop where
  performed : run calls = (calls.flatMap Call.edits).foldl Edit.apply empty
  names : (empty.asked (calls.flatMap Call.edits)).map
      (fun first => first.2.get? first.1.address) =
    (List.range (run calls).synthetic).map fun number => some ("L" ++ Text.decimal number)
  distinct : ((empty.asked (calls.flatMap Call.edits)).map fun first =>
    first.2.get? first.1.address).Nodup
  synthetic : (run calls).synthetic = (empty.asked (calls.flatMap Call.edits)).length
  size : (run calls).size =
    (run calls).synthetic + (empty.introduced (calls.flatMap Call.edits)).length
  introduced : ((empty.introduced (calls.flatMap Call.edits)).map fun first =>
    first.1.address).Nodup
  synthetic_le : (run calls).synthetic ≤ (run calls).size
  size_le : (run calls).size ≤ 2 ^ 32

theorem accounted (calls : List Call) : Accounted calls := by
  have performed : run calls = (calls.flatMap Call.edits).foldl Edit.apply empty :=
    foldl_apply_eq empty calls
  have synthetic : (run calls).synthetic =
      (empty.asked (calls.flatMap Call.edits)).length := by
    rw [performed, synthetic_foldl_apply]
    exact Nat.zero_add _
  have size : (run calls).size =
      (run calls).synthetic + (empty.introduced (calls.flatMap Call.edits)).length := by
    rw [synthetic, ← length_firsts, performed, size_foldl_apply]
    exact Nat.zero_add _
  have names : (empty.asked (calls.flatMap Call.edits)).map
      (fun first => first.2.get? first.1.address) =
      (List.range (run calls).synthetic).map fun number => some ("L" ++ Text.decimal number) := by
    rw [map_asked, synthetic, List.range_eq_range']
    rfl
  refine ⟨performed, names, ?_, synthetic, size, ?_, by omega, size_le _⟩
  · rw [names, List.Nodup, List.pairwise_map]
    refine List.nodup_range.imp fun apart same => ?_
    exact apart (syntheticName_inj.mp (Option.some.inj same))
  · exact (nodup_firsts _ _).sublist (List.filter_sublist.map _)

/-- Over every run a label stays, and keeps its name until another one is inserted for its address.
The numbers of the synthetic names are given out in order and none of them twice. -/
theorem run_invariants (calls : List Call) :
    (∀ more address name, (run calls).get? address = some name →
      (run (calls ++ more)).contains address = true ∧
        ((∀ other, .insert address other ∉ more) →
          (run (calls ++ more)).get? address = some name)) ∧
    Accounted calls ∧ (run calls).Coherent := by
  refine ⟨?_, accounted calls, coherent _⟩
  intro more address name named
  have later : run (calls ++ more) =
      (more.flatMap Call.edits).foldl Edit.apply (run calls) := by
    rw [run, List.foldl_append, foldl_apply_eq _ more]
    rfl
  rw [later]
  constructor
  · apply contains_foldl_of_contains
    rw [contains_eq_isSome, named]
    rfl
  · intro others
    apply get?_foldl_of_get? named
    intro other member
    obtain ⟨call, inside, edit⟩ := List.mem_flatMap.mp member
    cases call with
    | insert place new =>
      rw [Call.edits, List.mem_singleton] at edit
      cases edit
      exact others other inside
    | ensure place => simp [Call.edits] at edit
    | discover code => simp [Call.edits] at edit

end RiscvListing.Labels
