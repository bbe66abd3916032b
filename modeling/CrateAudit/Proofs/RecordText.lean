import CrateAudit.Proofs.JsonText
import CrateAudit.Record.Json

namespace CrateAudit.Record

section Leaves

variable {N F T : Type} [Leaf N] [Leaf F] [Leaf T]

mutual

def Node.leaves : Node N F T → List Value
  | .deref | .mutStatic | .inlineAsm => []
  | .call restricted foreign => [Leaf.value restricted, Leaf.value foreign]
  | .closure body | .inner body => body.leaves

def Block.leaves : Block N F T → List Value
  | ⟨size, restricted, contents⟩ => Leaf.value size :: Leaf.value restricted :: entryLeaves contents

def entryLeaves : List (Entry N F T) → List Value
  | [] => []
  | e :: entries => e.leaves ++ entryLeaves entries

def Entry.leaves : Entry N F T → List Value
  | ⟨index, span, snippet, _, item⟩ =>
    Leaf.value index :: Leaf.value span :: Leaf.value snippet :: item.leaves

end

def Function.leaves (f : Function N F T) : List Value :=
  Leaf.value f.name :: Leaf.value f.restricted :: Leaf.value f.span :: f.block.leaves

def leaves (r : Record N F T) : List Value :=
  Leaf.value r.name :: Leaf.value r.crateType :: r.functions.flatMap Function.leaves

mutual

def Node.loose : Node N F T → Node Value Value Value
  | .deref => .deref
  | .mutStatic => .mutStatic
  | .inlineAsm => .inlineAsm
  | .call restricted foreign => .call (Leaf.value restricted) (Leaf.value foreign)
  | .closure body => .closure body.loose
  | .inner body => .inner body.loose

def Block.loose : Block N F T → Block Value Value Value
  | ⟨size, restricted, contents⟩ => ⟨Leaf.value size, Leaf.value restricted, looseEntries contents⟩

def looseEntries : List (Entry N F T) → List (Entry Value Value Value)
  | [] => []
  | e :: entries => e.loose :: looseEntries entries

def Entry.loose : Entry N F T → Entry Value Value Value
  | ⟨index, span, snippet, origin, item⟩ =>
    ⟨Leaf.value index, Leaf.value span, Leaf.value snippet, origin, item.loose⟩

end

def Function.loose (f : Function N F T) : Function Value Value Value :=
  ⟨Leaf.value f.name, Leaf.value f.restricted, Leaf.value f.span, f.origin, f.block.loose⟩

def loose (r : Record N F T) : LooseRecord :=
  ⟨Leaf.value r.name, Leaf.value r.crateType, r.functions.map Function.loose⟩

end Leaves

section Identity

mutual

theorem Node.loose_eq (n : Node Value Value Value) : n.loose = n := by
  cases n with
  | deref | mutStatic | inlineAsm => rw [Node.loose]
  | call => rw [Node.loose]; rfl
  | closure body | inner body => rw [Node.loose, body.loose_eq]

theorem Block.loose_eq (b : Block Value Value Value) : b.loose = b := by
  obtain ⟨size, restricted, contents⟩ := b
  rw [Block.loose, looseEntries_eq contents]
  rfl

theorem looseEntries_eq (entries : List (Entry Value Value Value)) :
    looseEntries entries = entries := by
  cases entries with
  | nil => rw [looseEntries]
  | cons e entries => rw [looseEntries, e.loose_eq, looseEntries_eq entries]

theorem Entry.loose_eq (e : Entry Value Value Value) : e.loose = e := by
  obtain ⟨index, span, snippet, origin, item⟩ := e
  rw [Entry.loose, item.loose_eq]
  rfl

end

theorem loose_eq (r : LooseRecord) : r.loose = r := by
  have hf : (Function.loose : Function Value Value Value → _) = id := by
    funext f
    rw [Function.loose, f.block.loose_eq]
    rfl
  rw [loose, hf, List.map_id]
  rfl

end Identity

section Plain

/-- The texts that records have besides their leaves: the keys of their fields, variants and
origins. -/
def words : List String :=
  ["name", "ty", "functions", "unsaf", "span", "macro_origin", "block", "size", "contents",
    "index", "snippet", "item", "variant", "fields", "is_ffi", "Deref", "MutStatic", "InlineASM",
    "Call", "Closure", "InnerBlock"] ++
    Origin.all.map Origin.word

variable {N F T : Type} [Leaf N] [Leaf F] [Leaf T] {ok : Value → Bool}
  (hok : ∀ s ∈ words, ok (.str s) = true)

mutual

/-- A record adds only these words to its leaves, under keys of their own. -/
theorem Node.isPlain_toValue (hok : ∀ s ∈ words, ok (.str s)) (n : Node N F T) :
    n.toValue.isPlain ok = n.leaves.all (·.isPlain ok) := by
  have hw := hok
  simp only [words, Origin.all, List.map_cons, List.cons_append, List.forall_mem_cons] at hw
  cases n with
  | deref | mutStatic | inlineAsm => simp [Node.toValue, Node.leaves, Value.isPlain, hw]
  | call => simp [Node.toValue, Node.leaves, Value.isPlain, Value.plainFields, Value.plainItems, hw]
  | closure body | inner body =>
    simp [Node.toValue, Node.leaves, Value.isPlain, Value.plainFields, Value.plainItems, hw,
      body.isPlain_toValue hok]

theorem Block.isPlain_toValue (hok : ∀ s ∈ words, ok (.str s)) (b : Block N F T) :
    b.toValue.isPlain ok = b.leaves.all (·.isPlain ok) := by
  have hw := hok
  simp only [words, Origin.all, List.map_cons, List.cons_append, List.forall_mem_cons] at hw
  obtain ⟨size, restricted, contents⟩ := b
  simp [Block.toValue, Block.leaves, Value.isPlain, Value.plainFields, hw,
    plainItems_entryValues hok contents]

theorem plainItems_entryValues (hok : ∀ s ∈ words, ok (.str s)) (entries : List (Entry N F T)) :
    Value.plainItems ok (entryValues entries) = (entryLeaves entries).all (·.isPlain ok) := by
  cases entries with
  | nil => simp [entryValues, entryLeaves, Value.plainItems]
  | cons e entries =>
    rw [entryValues, entryLeaves, Value.plainItems, e.isPlain_toValue hok,
      plainItems_entryValues hok entries, List.all_append]

theorem Entry.isPlain_toValue (hok : ∀ s ∈ words, ok (.str s)) (e : Entry N F T) :
    e.toValue.isPlain ok = e.leaves.all (·.isPlain ok) := by
  have hw := hok
  simp only [words, Origin.all, List.map_cons, List.cons_append, List.forall_mem_cons] at hw
  obtain ⟨index, span, snippet, origin, item⟩ := e
  have ho : ok (.str origin.word) := by cases origin <;> simp [Origin.word, hw]
  simp [Entry.toValue, Entry.leaves, Value.isPlain, Value.plainFields, hw, ho,
    item.isPlain_toValue hok]

end

include hok

theorem Function.isPlain_toValue (f : Function N F T) :
    f.toValue.isPlain ok = f.leaves.all (·.isPlain ok) := by
  have hw := hok
  simp only [words, Origin.all, List.map_cons, List.cons_append, List.forall_mem_cons] at hw
  have ho : ok (.str f.origin.word) := by cases f.origin <;> simp [Origin.word, hw]
  simp [Function.toValue, Function.leaves, Value.isPlain, Value.plainFields, hw, ho,
    f.block.isPlain_toValue hok]

theorem isPlain_toValue (r : Record N F T) :
    r.toValue.isPlain ok = r.leaves.all (·.isPlain ok) := by
  have hw := hok
  simp only [words, Origin.all, List.map_cons, List.cons_append, List.forall_mem_cons] at hw
  have hf : ∀ functions : List (Function N F T), Value.plainItems ok
      (functions.map Function.toValue) =
      (functions.flatMap Function.leaves).all (·.isPlain ok) := by
    intro functions
    induction functions with
    | nil => rw [List.map_nil, Value.plainItems]; rfl
    | cons f functions ih =>
      rw [List.map_cons, Value.plainItems, ih, f.isPlain_toValue hok, List.flatMap_cons,
        List.all_append]
  simp [toValue, leaves, Value.isPlain, Value.plainFields, hw, hf]

end Plain

section Read

variable {N F T : Type} [Leaf N] [Leaf F] [Leaf T]

theorem key_object {fields : List (String × Value)} {name : String} {v : Value}
    (h : Table.get? fields name = some v) : key (.object fields) name = .ok v := by
  simp only [key, Value.under, Value.get?, h]

theorem origin_word (o : Origin) : origin (.str o.word) = .ok o := by
  cases o <;> rfl

theorem variantOf_object {name : String} {fields : Value}
    (h : ["Deref", "MutStatic", "InlineASM", "Call", "Closure", "InnerBlock"].contains name)
    (hf : fields.isNull = false) :
    variantOf (.object [("variant", .str name), ("fields", fields)]) = .ok (name, some fields) := by
  have hg : Table.get? [("variant", .str name), ("fields", fields)] "fields" = some fields := rfl
  rw [variantOf.eq_2 _ (fun _ hv => Value.noConfusion hv), key_object (by rfl)]
  simp only [bind, Except.bind, pure, Except.pure, Value.get?, hg, Option.getD_some, hf, h, if_true]
  rfl

mutual

/-- A written node is read back, as far as its nesting goes. -/
theorem node_toValue (n : Node N F T) (depth : Nat) (h : n.toValue.depth < depth) :
    node depth n.toValue = .ok n.loose := by
  obtain ⟨depth, rfl⟩ : ∃ d, depth = d + 1 := ⟨depth - 1, by omega⟩
  cases n with
  | deref => rw [Node.toValue, Node.loose]; rfl
  | mutStatic => rw [Node.toValue, Node.loose]; rfl
  | inlineAsm => rw [Node.toValue, Node.loose]; rfl
  | call restricted foreign => rw [Node.toValue, Node.loose]; rfl
  | closure body | inner body =>
    rw [Node.toValue] at h ⊢
    simp only [Value.depth, Value.depthFields, Value.depthItems] at h
    have hb := block_toValue body depth (by omega)
    rw [Node.loose, node, variantOf_object (by decide) rfl]
    simp only [firstPart, bind, Except.bind, hb]
    rfl

theorem block_toValue (b : Block N F T) (depth : Nat) (h : b.toValue.depth < depth) :
    block depth b.toValue = .ok b.loose := by
  obtain ⟨depth, rfl⟩ : ∃ d, depth = d + 1 := ⟨depth - 1, by omega⟩
  obtain ⟨size, restricted, contents⟩ := b
  rw [Block.toValue] at h ⊢
  simp only [Value.depth, Value.depthFields] at h
  have hc := entries_toValue contents depth (by omega)
  rw [Block.loose, block, key_object (by rfl), key_object (by rfl), key_object (by rfl)]
  simp only [parts, Value.partsOr, Value.parts?, bind, Except.bind, hc]
  rfl

theorem entries_toValue (entries : List (Entry N F T)) (depth : Nat)
    (h : Value.depthItems (entryValues entries) < depth) :
    (entryValues entries).mapM (entry depth) = .ok (looseEntries entries) := by
  cases entries with
  | nil => rw [entryValues, looseEntries]; rfl
  | cons e entries =>
    rw [entryValues, Value.depthItems] at h
    rw [entryValues, looseEntries, List.mapM_cons, entry_toValue e depth (by omega),
      entries_toValue entries depth (by omega)]
    rfl

theorem entry_toValue (e : Entry N F T) (depth : Nat) (h : e.toValue.depth < depth) :
    entry depth e.toValue = .ok e.loose := by
  obtain ⟨depth, rfl⟩ : ∃ d, depth = d + 1 := ⟨depth - 1, by omega⟩
  obtain ⟨index, span, snippet, o, item⟩ := e
  rw [Entry.toValue] at h ⊢
  simp only [Value.depth, Value.depthFields] at h
  have hn := node_toValue item depth (by omega)
  rw [Entry.loose, entry, key_object (by rfl), key_object (by rfl), key_object (by rfl),
    key_object (by rfl), key_object (by rfl)]
  simp only [bind, Except.bind, origin_word, hn]
  rfl

end

theorem function_toValue (f : Function N F T) : function f.toValue = .ok f.loose := by
  have hb := block_toValue f.block _ (Nat.lt_succ_self f.block.toValue.depth)
  rw [Function.toValue, function, key_object (by rfl), key_object (by rfl), key_object (by rfl),
    key_object (by rfl), key_object (by rfl)]
  simp only [bind, Except.bind, origin_word, hb]
  rfl

theorem ofValue_toValue (r : Record N F T) : ofValue r.toValue = .ok r.loose := by
  have hf : (r.functions.map Function.toValue).mapM function =
      .ok (r.functions.map Function.loose) := by
    induction r.functions with
    | nil => rfl
    | cons f functions ih =>
      rw [List.map_cons, List.map_cons, List.mapM_cons, function_toValue, ih]; rfl
  rw [toValue, ofValue, key_object (by rfl), key_object (by rfl), key_object (by rfl)]
  simp only [parts, Value.partsOr, Value.parts?, bind, Except.bind, hf]
  rfl

end Read

/-- A written record is read back, with its leaves as values. -/
theorem decode_encode {N F T : Type} [Leaf N] [Leaf F] [Leaf T] {ok : Value → Bool}
    (hwords : ∀ s ∈ words, ok (.str s)) (hok : ∀ n, ok (.int n) → Json.isShort n) {r : Record N F T}
    (h : ∀ v ∈ r.leaves, v.isPlain ok) : decode r.encode = .ok r.loose := by
  have hp : r.toValue.isPlain ok := by
    rw [isPlain_toValue hwords, List.all_eq_true]
    exact h
  rw [decode, encode, Json.parse_write hok hp]
  exact ofValue_toValue r

def recode (text : String) : Except RecordError String :=
  (decode text).map encode

/-- A record is read back from its line as it was, whatever plain values stand at its leaves. What
is written anew therefore stays as it is from then on. -/
theorem decode_encode_of_plain (r : LooseRecord) (h : ∀ v ∈ r.leaves, v.isPlain Json.isReadable) :
    decode r.encode = .ok r ∧
      ∀ text, decode text = .ok r → ∃ line, recode text = .ok line ∧ recode line = .ok line := by
  have hr : decode r.encode = .ok r := by
    rw [decode_encode (by decide) (fun n hn => hn) h, loose_eq]
  refine ⟨hr, ?_⟩
  intro text ht
  refine ⟨r.encode, ?_, ?_⟩
  · rw [recode, ht]
    rfl
  · rw [recode, hr]
    rfl

/-- Nested blocks, all variants and origins, and leaves of all kinds. -/
def oddRecord : LooseRecord where
  name := .str "a\u2028\"b\\\n\x01"
  crateType := .null
  functions :=
    [⟨.list [.int (-7), .object [("k", .bool true), ("l", .list [])]], .str "", .object [],
      .deriveMacro,
    ⟨.int 4, .bool false, [
      ⟨.int 0, .null, .str "x", .localMacro, .closure ⟨.str "2", .int 1, [
        ⟨.bool true, .list [.null], .str "é", .externalMacro, .inner ⟨.null, .null, [
          ⟨.int 9, .str "s", .str "t", .notMacro, .call (.int 0) (.list [.str "u"])⟩]⟩⟩,
        ⟨.int 1, .null, .null, .notMacro, .inlineAsm⟩]⟩⟩,
      ⟨.int 3, .null, .null, .notMacro, .deref⟩, ⟨.int 3, .null, .null, .notMacro, .mutStatic⟩]⟩⟩]

theorem decode_encode_oddRecord : decode oddRecord.encode = .ok oddRecord ∧
    ∀ text, decode text = .ok oddRecord → ∃ line, recode text = .ok line ∧ recode line = .ok line :=
  decode_encode_of_plain oddRecord (by decide)

end CrateAudit.Record
