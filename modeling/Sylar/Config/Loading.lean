import Mathlib.Logic.Function.Basic
import Mathlib.Tactic.Common
import Sylar.Http.Request

/-!
# Loading variables from a tree

`ListAllMember` and `Config::LoadFromYaml` of `config.cpp`. Names are compared in lower case,
but the filter for names runs before that, and it drops the node and everything below it.
-/

namespace Sylar.Config

open Http (bytes tolower)

/-- A `YAML::Node`; the keys of a map are scalars. -/
inductive Node where
  | null
  | scalar (text : List UInt8)
  | sequence (items : List Node)
  | map (entries : List (List UInt8 × Node))

/-- `find_first_not_of` the characters of a name. -/
def validName (name : List UInt8) : Bool :=
  name.all fun char => (bytes "abcdefghijklmnopqrstuvwxyz._0123456789").contains char

/-- The name of a child. -/
def child (pre key : List UInt8) : List UInt8 :=
  if pre = [] then key else pre ++ bytes "." ++ key

mutual

/-- `ListAllMember`, with what it adds to `output`. -/
def listAllMember (pre : List UInt8) : Node → List (List UInt8 × Node)
  | .map entries =>
      if validName pre then (pre, .map entries) :: listEntries pre entries else []
  | node => if validName pre then [(pre, node)] else []

/-- The loop over the entries of a map. -/
def listEntries (pre : List UInt8) : List (List UInt8 × Node) → List (List UInt8 × Node)
  | [] => []
  | (key, node) :: entries => listAllMember (child pre key) node ++ listEntries pre entries

end

mutual

/-- Every node with its dotted path, in pre-order. -/
def nodes (path : List UInt8) : Node → List (List UInt8 × Node)
  | .map entries => (path, .map entries) :: entryNodes path entries
  | node => [(path, node)]

/-- The nodes below the entries of a map. -/
def entryNodes (path : List UInt8) : List (List UInt8 × Node) → List (List UInt8 × Node)
  | [] => []
  | (key, node) :: entries => nodes (child path key) node ++ entryNodes path entries

end

/-- A registered variable, with the strings that `fromString` was called with. -/
structure Variable (S : Type) where
  state : S
  given : List (List UInt8)
deriving DecidableEq, Repr

/-- What `GetDatas` returns. -/
abbrev Datas (S : Type) := List UInt8 → Option (Variable S)

section

variable {S : Type} (emit : Node → List UInt8) (fromString : S → List UInt8 → S)

/-- `fromString` is called with the text of a node. -/
def Variable.give (var : Variable S) (val : List UInt8) : Variable S :=
  ⟨fromString var.state val, var.given ++ [val]⟩

/-- A scalar is handed over as it is, and any other node is written to a stream. -/
def Node.text : Node → List UInt8
  | .scalar text => text
  | node => emit node

/-- One round of the loop over `all_nodes`. -/
def load (datas : Datas S) (i : List UInt8 × Node) : Datas S :=
  if i.1 = [] then datas
  else
    match datas (i.1.map tolower) with
    | some var =>
        Function.update datas (i.1.map tolower) (some (var.give fromString (i.2.text emit)))
    | none => datas

/-- `LoadFromYaml`. `fromString` is the virtual function of the variables, and `emit` the writer of
the library for nodes. -/
def loadFromYaml (datas : Datas S) (root : Node) : Datas S :=
  (listAllMember [] root).foldl (load emit fromString) datas

/-- The texts of those nodes with a path whose path in lower case is a name. -/
def textsNamed (name : List UInt8) (all_nodes : List (List UInt8 × Node)) : List (List UInt8) :=
  (all_nodes.filter fun i => i.1 ≠ [] ∧ i.1.map tolower = name).map fun i => i.2.text emit

/-- The texts of the nodes that have this name. -/
def named (name : List UInt8) (root : Node) : List (List UInt8) :=
  textsNamed emit name (nodes [] root)

/-- Each registered variable is given exactly the nodes that it names. -/
structure Loaded (datas : Datas S) (root : Node) : Prop where
  given : ∀ name var, datas name = some var →
    loadFromYaml emit fromString datas root name =
      some ⟨(named emit name root).foldl fromString var.state, var.given ++ named emit name root⟩
  untouched : ∀ name var, datas name = some var → named emit name root = [] →
    loadFromYaml emit fromString datas root name = some var

end

/-- The path has a capital letter. -/
def hasUpper (path : List UInt8) : Bool := path.any fun char => 65 ≤ char && char ≤ 90

/-- The letters of either case, the digits, the underscore and the dot. -/
def plainChars : List UInt8 :=
  bytes "abcdefghijklmnopqrstuvwxyzABCDEFGHIJKLMNOPQRSTUVWXYZ._0123456789"

/-- The keys are made of plain characters, and so are the paths. -/
def Plain (root : Node) : Prop := ∀ i ∈ nodes [] root, ∀ char ∈ i.1, char ∈ plainChars

/-- No path with a capital letter is the name of a variable in lower case. -/
def Uncapitalized {S : Type} (datas : Datas S) (root : Node) : Prop :=
  ∀ i ∈ nodes [] root, hasUpper i.1 = true → datas (i.1.map tolower) = none

/-- An induction over the nodes of a tree. -/
theorem Node.induction {motive : Node → Prop} (null : motive .null)
    (scalar : ∀ text, motive (.scalar text)) (sequence : ∀ items, motive (.sequence items))
    (map : ∀ entries, (∀ entry ∈ entries, motive entry.2) → motive (.map entries))
    (node : Node) : motive node :=
  @Node.rec motive (fun _ => True) (fun entries => ∀ entry ∈ entries, motive entry.2)
    (fun entry => motive entry.2) null scalar (fun items _ => sequence items)
    (fun entries below => map entries below) trivial (fun _ _ _ _ => trivial)
    (fun _ member => absurd member List.not_mem_nil)
    (fun _ _ first rest => List.forall_mem_cons.2 ⟨first, rest⟩) (fun _ _ below => below) node

/-! ### The filter -/

theorem validName_child {pre key : List UInt8} (valid : validName (child pre key) = true) :
    validName pre = true := by
  unfold child at valid
  split at valid
  · rename_i empty
    rw [empty]
    rfl
  · simp only [validName, List.all_append, Bool.and_eq_true] at valid
    exact valid.1.1

/-- Below a node whose path is refused there is no path that is not. -/
theorem validName_below (node : Node) (path : List UInt8) :
    ∀ i ∈ nodes path node, validName i.1 = true → validName path = true := by
  induction node using Node.induction generalizing path with
  | null => simp [nodes]
  | scalar text => simp [nodes]
  | sequence items => simp [nodes]
  | map entries inductionHypothesis =>
      rw [nodes, List.forall_mem_cons]
      refine ⟨id, ?_⟩
      induction entries with
      | nil => simp [entryNodes]
      | cons entry entries later =>
          rw [List.forall_mem_cons] at inductionHypothesis
          rw [entryNodes, List.forall_mem_append]
          refine ⟨fun i member valid => ?_, later inductionHypothesis.2⟩
          exact validName_child (inductionHypothesis.1 _ i member valid)

/-- The filter takes out the nodes with a path it refuses, and no others. -/
theorem listAllMember_eq (node : Node) (pre : List UInt8) :
    listAllMember pre node = (nodes pre node).filter fun i => validName i.1 := by
  induction node using Node.induction generalizing pre with
  | null => cases valid : validName pre <;> simp [listAllMember, nodes, valid]
  | scalar text => cases valid : validName pre <;> simp [listAllMember, nodes, valid]
  | sequence items => cases valid : validName pre <;> simp [listAllMember, nodes, valid]
  | map entries inductionHypothesis =>
      cases valid : validName pre with
      | false =>
          have refused : ∀ i ∈ nodes pre (.map entries), ¬validName i.1 = true := by
            intro i member accepted
            exact absurd (validName_below _ _ i member accepted) (by simp [valid])
          rw [listAllMember, valid, List.filter_eq_nil_iff.2 refused]
          rfl
      | true =>
          have below : listEntries pre entries =
              (entryNodes pre entries).filter fun i => validName i.1 := by
            clear valid
            induction entries with
            | nil => rfl
            | cons entry entries later =>
                rw [List.forall_mem_cons] at inductionHypothesis
                rw [listEntries, entryNodes, List.filter_append, later inductionHypothesis.2,
                  inductionHypothesis.1]
          rw [listAllMember, if_pos valid, nodes, List.filter_cons, if_pos valid, below]

/-! ### The loop -/

variable {S : Type} {emit : Node → List UInt8} {fromString : S → List UInt8 → S}

/-- A round gives its node to the variable that its path names, and to no other. -/
theorem load_some (datas : Datas S) (i : List UInt8 × Node) {name : List UInt8}
    {var : Variable S} (present : datas name = some var) :
    load emit fromString datas i name =
      some (if i.1 ≠ [] ∧ i.1.map tolower = name then var.give fromString (i.2.text emit) else var) := by
  unfold load
  by_cases empty : i.1 = []
  · simp [empty, present]
  · by_cases same : i.1.map tolower = name
    · subst same
      simp [empty, present]
    · rw [if_neg empty, if_neg (by simp [same])]
      cases datas (i.1.map tolower) with
      | none => exact present
      | some other => exact (Function.update_of_ne (Ne.symm same) _ _).trans present

/-- After the loop a variable has got, one after another, the texts of its name. -/
theorem foldl_load (all_nodes : List (List UInt8 × Node)) (datas : Datas S) {name : List UInt8}
    {var : Variable S} (present : datas name = some var) :
    all_nodes.foldl (load emit fromString) datas name =
      some ⟨(textsNamed emit name all_nodes).foldl fromString var.state,
        var.given ++ textsNamed emit name all_nodes⟩ := by
  induction all_nodes generalizing datas var with
  | nil => simp [textsNamed, present]
  | cons i all_nodes inductionHypothesis =>
      rw [List.foldl_cons, inductionHypothesis _ (load_some datas i present)]
      by_cases goes : i.1 ≠ [] ∧ i.1.map tolower = name
      · rw [if_pos goes, textsNamed, textsNamed, List.filter_cons_of_pos (by simpa using goes)]
        simp [Variable.give]
      · rw [if_neg goes, textsNamed, textsNamed, List.filter_cons_of_neg (by simpa using goes)]

/-! ### Capital letters -/

theorem lower_of_plain : ∀ char ∈ plainChars,
    (bytes "abcdefghijklmnopqrstuvwxyz._0123456789").contains char = !(65 ≤ char && char ≤ 90) := by
  decide

theorem validName_eq {path : List UInt8} (plain : ∀ char ∈ path, char ∈ plainChars) :
    validName path = !hasUpper path := by
  unfold validName hasUpper
  rw [List.not_any_eq_all_not, Bool.eq_iff_iff, List.all_eq_true, List.all_eq_true]
  exact forall₂_congr fun char member => by rw [lower_of_plain char (plain char member)]

/-- The texts that the loop finds for a name are those of the nodes it names, but for the paths
that are refused. -/
theorem listed_eq_filter (name : List UInt8) (root : Node) :
    textsNamed emit name (listAllMember [] root) =
      (((nodes [] root).filter fun i => i.1 ≠ [] ∧ i.1.map tolower = name).filter
        fun i => validName i.1).map fun i => i.2.text emit := by
  rw [textsNamed, listAllMember_eq, List.filter_filter, List.filter_filter]
  exact congrArg (List.map _) (List.filter_congr fun i _ => Bool.and_comm _ _)

theorem listed_eq_named (name : List UInt8) (root : Node) :
    textsNamed emit name (listAllMember [] root) = named emit name root ↔
      ∀ i ∈ nodes [] root, i.1 ≠ [] ∧ i.1.map tolower = name → validName i.1 = true := by
  rw [listed_eq_filter, named, textsNamed]
  constructor
  · intro same i member names
    have lengths := congrArg List.length same
    rw [List.length_map, List.length_map, List.length_filter_eq_length_iff] at lengths
    exact lengths i (List.mem_filter.2 ⟨member, decide_eq_true names⟩)
  · intro all
    rw [List.filter_eq_self.2]
    intro i member
    obtain ⟨member, names⟩ := List.mem_filter.1 member
    exact all i member (of_decide_eq_true names)

/-- For a tree of plain keys, every registered variable is given exactly the nodes that it names,
if and only if none of them is named by a path with a capital letter. -/
theorem loaded_iff_uncapitalized (emit : Node → List UInt8) (fromString : S → List UInt8 → S)
    (datas : Datas S) (root : Node) (plain : Plain root) :
    Loaded emit fromString datas root ↔ Uncapitalized datas root := by
  have loads : ∀ name var, datas name = some var → loadFromYaml emit fromString datas root name =
      some ⟨(textsNamed emit name (listAllMember [] root)).foldl fromString var.state,
        var.given ++ textsNamed emit name (listAllMember [] root)⟩ :=
    fun name var present => foldl_load _ datas present
  constructor
  · intro loaded i member upper
    by_contra registered
    obtain ⟨var, present⟩ := Option.ne_none_iff_exists'.1 registered
    have same := (loads _ var present).symm.trans (loaded.given _ var present)
    simp only [Option.some.injEq, Variable.mk.injEq, List.append_cancel_left_eq] at same
    have nonempty : i.1 ≠ [] := by
      intro empty
      rw [empty] at upper
      cases upper
    have valid := (listed_eq_named _ root).1 same.2 i member ⟨nonempty, rfl⟩
    rw [validName_eq (plain i member), upper] at valid
    cases valid
  · intro lower
    have given : ∀ name var, datas name = some var →
        textsNamed emit name (listAllMember [] root) = named emit name root := by
      intro name var present
      rw [listed_eq_named]
      rintro i member ⟨_, rfl⟩
      rw [validName_eq (plain i member), Bool.not_eq_true', Bool.eq_false_iff]
      intro upper
      exact absurd (present.symm.trans (lower i member upper)) (by simp)
    constructor
    · intro name var present
      rw [loads name var present, given name var present]
    · intro name var present nobody
      rw [loads name var present, given name var present, nobody, List.foldl_nil, List.append_nil]

/-- `{system: {port: 1, Port: 2, port: 3}}`. -/
def systemTree : Node :=
  .map [(bytes "system", .map [(bytes "port", .scalar (bytes "1")),
    (bytes "Port", .scalar (bytes "2")), (bytes "port", .scalar (bytes "3"))])]

/-- One variable, which keeps the last string it was given. -/
def onlyVariable (name : List UInt8) : Datas (List UInt8) := fun other =>
  if other = name then some ⟨[], []⟩ else none

/-- The second of the three nodes is not given to the variable. -/
theorem not_loaded_capital :
    ¬Loaded (fun _ => []) (fun _ val => val) (onlyVariable (bytes "system.port")) systemTree := by
  intro loaded
  have given := loaded.given (bytes "system.port") ⟨[], []⟩ (by decide)
  exact absurd (congrArg (Option.map Variable.given) given) (by decide)

theorem loaded_system :
    Loaded (fun _ => []) (fun _ val => val) (onlyVariable (bytes "system")) systemTree :=
  (loaded_iff_uncapitalized _ _ _ systemTree (by unfold Plain; decide)).2
    (by unfold Uncapitalized; decide)

end Sylar.Config
