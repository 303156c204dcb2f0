import BebaCtrl.Ofproto.Multipart

/-!
# Table features on the wire

A controller may send table features and not only read them. An entry is a header of 64 bytes and a
list of properties; a property is a type, a length, elements of one of four encodings, and padding
that its length does not count. The serializers are below, and against the parsers of `Multipart`
the exact set of lists of entries that come back.

An OXM id of an experimenter field is the one kind of element that is never written: its class calls
the serializer of the plain ids, which shifts the number of the field, a pair here, and would return
nothing if it went on.
-/

namespace BebaCtrl

open Struct List

/-! ## Serializers -/

namespace OFPOxmId

/-- `OFPOxmId.serialize` -/
def serializePlain (self : OFPOxmId) : PyResult Bytes := do
  match ← oxmFromUserHeader self.type with
  -- `n << (1 + 8)` where `n` is a pair
  | .experimenter _ _ => throw .typeError
  | .basic n =>
    let buf ← msgPackInto [I] [] 0 [.int ((n <<< 9) ||| (self.hasmask.toNat <<< 8) ||| 0)]
    pyAssert (n >>> 7 ≠ ofpxmcExperimenter)
    return buf

/-- The method of the class of the id; that of `OFPExperimenterOxmId` returns `None`. -/
def serialize (self : OFPOxmId) : PyResult (Option Bytes) := do
  let buf ← self.serializePlain
  match self.expId with
  | none => return some buf
  | some expId =>
    let _ ← msgPackInto [I] buf 4 [.int expId]
    return none

/-- What is added to `bin_ids`; `bytearray() += None` is a `TypeError`. -/
def bin (self : OFPOxmId) : PyResult Bytes := do
  let some buf ← self.serialize | throw .typeError
  return buf

end OFPOxmId

namespace OFPTableFeatureProp

/-- `OFPInstructionId.serialize` and `OFPActionId.serialize` -/
def idSerialize (id : Nat × Nat) : PyResult Bytes := msgPackInto [H, H] [] 0 [.int id.1, .int 4]

def idsSerializeBody (ids : List (Nat × Nat)) : PyResult Bytes := do
  let bins ← ids.mapM idSerialize
  return bins.flatten

/-- The padding behind a property. -/
def pad (length : Nat) (buf : Bytes) : PyResult Bytes :=
  msgPackInto [x (roundUp length 8 - length)] buf buf.length []

/-- `OFPPropBase.serialize` -/
def serializeWith (type : Nat) (serializeBody : PyResult Bytes) : PyResult Bytes := do
  let body ← serializeBody
  let length := body.length + 4
  let buf ← msgPackInto [H, H] [] 0 [.int type, .int length]
  pad length (buf ++ body)

/-- `OFPPropCommonExperimenter4ByteData.serialize` -/
def experimenterSerialize (type experimenter expType : Nat) (data : List Nat) : PyResult Bytes := do
  let binData ← packEach I data
  let length := 12 + binData.length
  let buf ← msgPackInto [H, H, I, I] [] 0
    [.int type, .int length, .int experimenter, .int expType]
  pad length (buf ++ binData)

def serialize (type : Nat) : OFPTableFeatureProp → PyResult Bytes
  -- `OFPPropUnknown` has no such method
  | unknown _ => .error .attributeError
  | instructions ids => serializeWith type (idsSerializeBody ids)
  | nextTables ids => serializeWith type (packEach B ids)
  | actions ids => serializeWith type (idsSerializeBody ids)
  | oxm ids => serializeWith type do return (← ids.mapM OFPOxmId.bin).flatten
  | experimenter exp expType data => experimenterSerialize type exp expType data

end OFPTableFeatureProp

namespace OFPTableFeaturesStats

def serialize (self : OFPTableFeaturesStats) : PyResult Bytes := do
  let bins ← self.properties.mapM fun p => p.2.serialize p.1
  let binProps := bins.flatten
  let buf ← msgPackInto ofpTableFeaturesPackStr [] 0
    (.int (64 + binProps.length) :: .int self.tableId :: .bytes self.name :: self.vals)
  return buf ++ binProps

end OFPTableFeaturesStats

/-! ## The bytes of a property -/

/-- A field of the table, under the class of ids that its class of fields asks for. -/
def OFPOxmId.Known (self : OFPOxmId) : Prop :=
  ∃ f ∈ oxmTypes, self.type = .named f.name ∧ self.expId = f.exp.map Prod.fst

instance (self : OFPOxmId) : Decidable self.Known := decidableBEx _ _

/-- The header word of a plain field without a length. -/
def OxmField.idWord (f : OxmField) (hasmask : Bool) : Nat :=
  (f.oxmType <<< 9) ||| (hasmask.toNat <<< 8) ||| 0

/-- What the table says of plain fields and of those of experimenters. -/
theorem idWord_of_mem : ∀ f ∈ oxmTypes,
    (f.exp = none → f.num = .basic f.oxmType ∧ f.oxmType >>> 7 ≠ ofpxmcExperimenter ∧
      ∀ m : Bool, f.idWord m < 256 ^ 4 ∧ f.idWord m >>> 9 = f.oxmType ∧ hasmask (f.idWord m) = m ∧
        f.idWord m &&& 0xff = 0 ∧ f.idWord m >>> 16 ≠ ofpxmcExperimenter) ∧
    (f.exp ≠ none → headerWord f.num 0 0 = .error .typeError) := by
  decide +kernel

variable {bs : Bytes}

namespace OFPOxmId

/-- The bytes of a plain id. -/
def bytes (self : OFPOxmId) : Bytes :=
  match self.type with
  | .named name => beEncode 4 (((nameToField name).map (·.idWord self.hasmask)).getD 0)
  | .field _ => []

variable {self : OFPOxmId}

theorem bytes_eq {f : OxmField} (hf : f ∈ oxmTypes) (htype : self.type = .named f.name) :
    self.bytes = beEncode 4 (f.idWord self.hasmask) := by
  obtain ⟨size, hentry⟩ := entry_of_mem f hf
  rw [bytes, htype]
  simp [hentry.byName]

/-- An id of a known field is written when it is plain. -/
theorem bin_eq_ok_iff (hknown : self.Known) :
    self.bin = .ok bs ↔ self.expId = none ∧ bs = self.bytes := by
  obtain ⟨f, hf, htype, hexp⟩ := hknown
  obtain ⟨size, hentry⟩ := entry_of_mem f hf
  have hnum : oxmFromUserHeader self.type = .ok f.num := by
    simp [oxmFromUserHeader, getFieldInfoByName, htype, hentry.byName]
  rcases Decidable.em (f.exp = none) with hnone | hsome
  · obtain ⟨hbasic, hcls, hbits⟩ := (idWord_of_mem f hf).1 hnone
    have hfit : fits [I] [.int (f.idWord self.hasmask)] = true := by
      simpa [fits] using (hbits self.hasmask).1
    have hbin : self.bin = .ok (beEncode 4 (f.idWord self.hasmask)) := by
      have hmsg := msgPackInto_ok hfit [] 0
      rw [OxmField.idWord] at hmsg
      simp only [bin, serialize, serializePlain, hnum, hbasic, hexp, hnone, hmsg, pyAssert_pos hcls,
        Option.map_none, ok_bind, pure_eq_ok]
      simp [splice, encode, OxmField.idWord]
    rw [hbin, bytes_eq hf htype, hexp, hnone]
    simp [eq_comm]
  · have herr := (idWord_of_mem f hf).2 hsome
    have hbin : self.bin = .error .typeError := by
      cases hn : f.num with
      | basic n =>
        rw [hn] at herr
        cases herr
      | experimenter i t =>
        simp [bin, serialize, serializePlain, hnum, hn]
    rw [hbin, hexp]
    simp [hsome]

theorem oxmIdParse_bytes (hknown : self.Known) (hplain : self.expId = none) (rest : Bytes) :
    OFPTableFeatureProp.oxmIdParse (self.bytes ++ rest) =
      .ok (⟨self.type, none, self.hasmask, 0⟩, rest) := by
  obtain ⟨f, hf, htype, hexp⟩ := hknown
  obtain ⟨size, hentry⟩ := entry_of_mem f hf
  have hnone : f.exp = none := by
    rw [hplain] at hexp
    simpa [eq_comm] using hexp
  obtain ⟨hbasic, hcls, hbits⟩ := (idWord_of_mem f hf).1 hnone
  obtain ⟨hlt, hnum, hmask, hlen, hexper⟩ := hbits self.hasmask
  have hex : exact [I] [.int (f.idWord self.hasmask)] = true := by
    simpa [Struct.exact] using hlt
  have hat : At (self.bytes ++ rest) 0 (encode [I] [.int (f.idWord self.hasmask)]) := by
    rw [bytes_eq hf htype]
    simpa [encode] using at_front _ rest
  have hdrop : (self.bytes ++ rest).drop 4 = rest := by
    rw [bytes_eq hf htype]
    exact drop_left' (length_beEncode 4 _)
  have hname : oxmToUserHeader (.basic f.oxmType) = .ok self.type := by
    simp [oxmToUserHeader, getFieldInfoByNumber, ← hbasic, hentry.byNum, htype]
  rw [OFPTableFeatureProp.oxmIdParse, unpackFrom_at hex (by decide) hat]
  simp [hnum, hname, hmask, hlen, hdrop, if_neg hexper]

end OFPOxmId

variable {type : Nat} {self : OFPTableFeatureProp}

namespace OFPTableFeatureProp

/-- The kind of property that is registered for a type, with ids of known fields. -/
def Registered (type : Nat) : OFPTableFeatureProp → Prop
  | unknown _ => False
  | instructions _ => type = 0 ∨ type = 1
  | nextTables _ => type = 2 ∨ type = 3
  | actions _ => 4 ≤ type ∧ type ≤ 7
  | oxm ids => (type = 8 ∨ type = 10 ∨ (12 ≤ type ∧ type ≤ 15)) ∧ ∀ i ∈ ids, i.Known
  | experimenter _ _ _ => type = 0xfffe ∨ type = 0xffff

/-- The elements fit their encodings, and no id is that of an experimenter field. -/
def Writable : OFPTableFeatureProp → Prop
  | unknown _ => False
  | instructions ids => ∀ i ∈ ids, i.1 < 256 ^ 2
  | nextTables ids => ∀ i ∈ ids, i < 256 ^ 1
  | actions ids => ∀ i ∈ ids, i.1 < 256 ^ 2
  | oxm ids => ∀ i ∈ ids, i.expId = none
  | experimenter exp expType data =>
    (exp < 256 ^ 4 ∧ expType < 256 ^ 4) ∧ ∀ d ∈ data, d < 256 ^ 4

instance (type : Nat) (self : OFPTableFeatureProp) : Decidable (self.Registered type) := by
  cases self <;> (unfold Registered; infer_instance)

instance (self : OFPTableFeatureProp) : Decidable self.Writable := by
  cases self <;> (unfold Writable; infer_instance)

def idBytes (id : Nat × Nat) : Bytes := encode [H, H] [.int id.1, .int 4]

/-- What stands between the length of a property and its padding. -/
def body : OFPTableFeatureProp → Bytes
  | unknown _ => []
  | instructions ids => (ids.map idBytes).flatten
  | nextTables ids => (ids.map (beEncode 1)).flatten
  | actions ids => (ids.map idBytes).flatten
  | oxm ids => (ids.map OFPOxmId.bytes).flatten
  | experimenter exp expType data =>
    encode [I, I] [.int exp, .int expType] ++ (data.map (beEncode 4)).flatten

def length (self : OFPTableFeatureProp) : Nat := self.body.length + 4

def bytes (type : Nat) (self : OFPTableFeatureProp) : Bytes :=
  encode [H, H] [.int type, .int self.length] ++ self.body ++
    zeros (roundUp self.length 8 - self.length)

theorem pad_eq (length : Nat) (buf : Bytes) :
    pad length buf = .ok (buf ++ zeros (roundUp length 8 - length)) := by
  rw [pad, msgPackInto_ok (by simp [fits]), splice_end]
  simp [encode]

variable {ids : List (Nat × Nat)}

theorem idsSerializeBody_eq_ok_iff :
    idsSerializeBody ids = .ok bs ↔
      (∀ i ∈ ids, i.1 < 256 ^ 2) ∧ bs = (ids.map idBytes).flatten := by
  have hid : ∀ i ∈ ids, ∀ b, idSerialize i = .ok b ↔ i.1 < 256 ^ 2 ∧ b = idBytes i := by
    intro i _ b
    rw [idSerialize, msgPackInto_nil_eq_ok_iff]
    simp [fits, idBytes]
  rw [idsSerializeBody, bind_eq_ok]
  simp [mapM_eq_ok_iff hid, and_assoc, eq_comm]

theorem serializeWith_eq_ok_iff {r : PyResult Bytes} {P : Prop} {body bs : Bytes}
    (htype : type < 256 ^ 2) (hr : ∀ b, r = .ok b ↔ P ∧ b = body) :
    serializeWith type r = .ok bs ↔ (P ∧ body.length + 4 < 256 ^ 2) ∧
      bs = encode [H, H] [.int type, .int (body.length + 4)] ++ body ++
        zeros (roundUp (body.length + 4) 8 - (body.length + 4)) := by
  rw [serializeWith, bind_eq_ok]
  simp only [hr, bind_eq_ok, msgPackInto_nil_eq_ok_iff, pad_eq, Except.ok.injEq]
  have hfit : fits [H, H] [.int type, .int (body.length + 4)] = true ↔
      body.length + 4 < 256 ^ 2 := by
    simp only [fits, Bool.and_eq_true, decide_eq_true_eq, and_true]
    exact and_iff_right htype
  constructor
  · rintro ⟨b, ⟨hP, rfl⟩, buf, ⟨hlen, rfl⟩, rfl⟩
    exact ⟨⟨hP, hfit.1 hlen⟩, rfl⟩
  · rintro ⟨⟨hP, hlen⟩, rfl⟩
    exact ⟨body, ⟨hP, rfl⟩, _, ⟨hfit.2 hlen, rfl⟩, rfl⟩

theorem length_experimenter (exp expType : Nat) (data : List Nat) :
    (experimenter exp expType data).length = 12 + (data.map (beEncode 4)).flatten.length := by
  simp only [length, body, length_append, encode, length_beEncode, length_nil]
  omega

theorem experimenterSerialize_eq_ok_iff {type exp expType : Nat} {data : List Nat}
    (htype : type < 256 ^ 2) : experimenterSerialize type exp expType data = .ok bs ↔
      ((experimenter exp expType data).Writable ∧
        (experimenter exp expType data).length < 256 ^ 2) ∧
      bs = (experimenter exp expType data).bytes type := by
  have hlength := length_experimenter exp expType data
  have hfit : fits [H, H, I, I] [.int type, .int (experimenter exp expType data).length, .int exp,
      .int expType] = true ↔
      (experimenter exp expType data).length < 256 ^ 2 ∧ exp < 256 ^ 4 ∧ expType < 256 ^ 4 := by
    simp only [fits, Bool.and_eq_true, decide_eq_true_eq, and_true]
    exact and_iff_right htype
  rw [experimenterSerialize, bind_eq_ok]
  simp only [packEach_eq_ok_iff, bind_eq_ok, msgPackInto_nil_eq_ok_iff, pad_eq, Except.ok.injEq]
  constructor
  · rintro ⟨_, ⟨hdata, rfl⟩, _, ⟨hhdr, rfl⟩, rfl⟩
    rw [← hlength] at hhdr
    obtain ⟨hlen, hexp⟩ := hfit.1 hhdr
    refine ⟨⟨⟨hexp, hdata⟩, hlen⟩, ?_⟩
    rw [← hlength]
    simp [bytes, body, encode]
  · rintro ⟨⟨⟨hexp, hdata⟩, hlen⟩, rfl⟩
    refine ⟨_, ⟨hdata, rfl⟩, _, ⟨?_, rfl⟩, ?_⟩
    · rw [← hlength]
      exact hfit.2 ⟨hlen, hexp⟩
    · rw [← hlength]
      simp [bytes, body, encode]

theorem type_lt_of_registered (hreg : self.Registered type) : type < 256 ^ 2 := by
  cases self <;> simp only [Registered] at hreg <;> omega

/-- A property of a registered kind is written when its elements fit, its length does, and none of
its ids is that of an experimenter field. -/
theorem serialize_eq_ok_iff (hreg : self.Registered type) : self.serialize type = .ok bs ↔
      (self.Writable ∧ self.length < 256 ^ 2) ∧ bs = self.bytes type := by
  have htype := type_lt_of_registered hreg
  cases self with
  | unknown buf => exact hreg.elim
  | instructions ids => exact serializeWith_eq_ok_iff htype fun _ => idsSerializeBody_eq_ok_iff
  | nextTables ids => exact serializeWith_eq_ok_iff htype fun _ => packEach_eq_ok_iff
  | actions ids => exact serializeWith_eq_ok_iff htype fun _ => idsSerializeBody_eq_ok_iff
  | oxm ids =>
    have hids : ∀ i ∈ ids, ∀ b, i.bin = .ok b ↔ i.expId = none ∧ b = i.bytes :=
      fun i hi b => OFPOxmId.bin_eq_ok_iff (hreg.2 i hi)
    refine serializeWith_eq_ok_iff htype fun b => ?_
    rw [bind_eq_ok]
    simp [mapM_eq_ok_iff hids, and_assoc, eq_comm, Writable, body]
  | experimenter exp expType data => exact experimenterSerialize_eq_ok_iff htype

/-! ## Reading a property back -/

section

variable (type : Nat) (self : OFPTableFeatureProp)

theorem length_bytes : (self.bytes type).length = roundUp self.length 8 := by
  have hle := le_roundUp self.length (show 0 < 8 by decide)
  simp only [bytes, encode, length_append, length_beEncode, length_nil, length_zeros]
  have hlength : self.length = self.body.length + 4 := rfl
  omega

theorem bytes_ne_nil : self.bytes type ≠ [] := by
  simp [bytes, encode, beEncode]

/-- A property in front of anything. -/
theorem at_bytes (rest : Bytes) :
    At (self.bytes type ++ rest) 0 (encode [H, H] [.int type, .int self.length]) ∧
      At (self.bytes type ++ rest) 4 self.body := by
  have hat := at_front (self.bytes type) rest
  have hparts : At (self.bytes type ++ rest) 0
      (encode [H, H] [.int type, .int self.length] ++ self.body) := At.left hat
  exact ⟨hparts.left, hparts.right⟩

end

theorem unpackFrom_bytes (htype : type < 256 ^ 2) (hlen : self.length < 256 ^ 2) (rest : Bytes) :
    unpackFrom [H, H] (self.bytes type ++ rest) 0 = .ok [.int type, .int self.length] := by
  refine unpackFrom_at ?_ (by decide) (at_bytes type self rest).1
  simp only [Struct.exact, Bool.and_eq_true, decide_eq_true_eq, and_true]
  exact ⟨htype, hlen⟩

theorem getRest_bytes (htype : type < 256 ^ 2) (hlen : self.length < 256 ^ 2) (rest : Bytes) :
    getRest (self.bytes type ++ rest) = .ok self.body := by
  have hslice := (at_bytes type self rest).2.slice_eq
  rw [Nat.add_comm] at hslice
  rw [getRest, unpackFrom_bytes htype hlen]
  exact congrArg Except.ok hslice

theorem idParse_idBytes {id : Nat × Nat} (hid : id.1 < 256 ^ 2) (rest : Bytes) :
    idParse (idBytes id ++ rest) = .ok ((id.1, 4), rest) := by
  have hex : exact [H, H] [.int id.1, .int 4] = true := by
    simpa [Struct.exact] using hid
  have hat : At (idBytes id ++ rest) 0 (encode [H, H] [.int id.1, .int 4]) := at_front _ rest
  rw [idParse, unpackFrom_at hex (by decide) hat]
  exact congrArg (fun r => Except.ok ((id.1, 4), r))
    (drop_left' (length_encode (fits_of_exact hex)))

theorem ends_ids (hids : ∀ i ∈ ids, i.1 < 256 ^ 2) :
    Py.Ends (Py.chopRest (fun r => liftM (idParse r)) (ids.map idBytes).flatten)
      (.ok (ids.map fun i => (i.1, 4))) := by
  refine Py.ends_chopRest_flatten (fun i _ => ?_) fun i hi rest => Py.ends_lift.2 ?_
  · simp [idBytes, encode, beEncode]
  · exact idParse_idBytes (hids i hi) rest

end OFPTableFeatureProp

theorem ends_numbersParser {n : Nat} (hn : 0 < n) {vs : List Nat} (hvs : ∀ v ∈ vs, v < 256 ^ n) :
    Py.Ends (numbersParser (.uint n) (vs.map (beEncode n)).flatten) (.ok vs) := by
  induction vs with
  | nil => exact Py.ends_loop_nil rfl
  | cons v vs ih =>
    rw [forall_mem_cons] at hvs
    rw [map_cons, flatten_cons]
    have hex : exact [.uint n] [.int v] = true := by
      simpa [Struct.exact] using hvs.1
    have hat : At (beEncode n v ++ (vs.map (beEncode n)).flatten) 0
        (encode [.uint n] [.int v]) := by
      simpa [encode] using at_front _ _
    refine Py.ends_chop_cons (k := n) ?_ ?_ ?_
    · refine append_ne_nil_of_left_ne_nil (ne_nil_of_length_pos ?_) _
      rw [length_beEncode]
      exact hn
    · rw [unpackFrom_at hex (by simpa [calcsize] using hn) hat]
      exact Py.ends_pure.2 rfl
    · rw [drop_left' (length_beEncode n v)]
      exact ih hvs.2

namespace OFPTableFeatureProp

/-- The property with the lengths of its elements as the serializers set them. -/
def fixup : OFPTableFeatureProp → OFPTableFeatureProp
  | instructions ids => instructions (ids.map fun i => (i.1, 4))
  | actions ids => actions (ids.map fun i => (i.1, 4))
  | oxm ids => oxm (ids.map fun i => { i with length := 0 })
  | self => self

theorem ends_experimenterParser {type exp expType : Nat} {data : List Nat} (htype : type < 256 ^ 2)
    (hw : (experimenter exp expType data).Writable)
    (hlen : (experimenter exp expType data).length < 256 ^ 2) (rest : Bytes) :
    Py.Ends (experimenterParser ((experimenter exp expType data).bytes type ++ rest))
      (.ok (experimenter exp expType data)) := by
  obtain ⟨⟨hexp, hexpType⟩, hdata⟩ := hw
  generalize hself : experimenter exp expType data = self at hlen
  obtain ⟨hhdr, hbody⟩ := at_bytes type self rest
  have hbodyEq : self.body = encode [I, I] [.int exp, .int expType] ++
      (data.map (beEncode 4)).flatten := by
    rw [← hself]
    rfl
  rw [hbodyEq] at hbody
  have hex : exact [H, H, I, I] [.int type, .int self.length, .int exp, .int expType] = true := by
    simp only [Struct.exact, Bool.and_eq_true, decide_eq_true_eq, and_true]
    exact ⟨htype, hlen, hexp, hexpType⟩
  have hall : At (self.bytes type ++ rest) 0
      (encode [H, H] [.int type, .int self.length] ++ encode [I, I] [.int exp, .int expType]) :=
    at_append.2 ⟨hhdr, hbody.left⟩
  have hslice : slice (self.bytes type ++ rest) 12 self.length =
      (data.map (beEncode 4)).flatten := by
    rw [← hself, length_experimenter, hself]
    exact hbody.right.slice_eq
  rw [experimenterParser, unpackFrom_at hex (by decide) (by simpa [encode] using hall)]
  simp only [Py.lift_ok_bind, hslice]
  exact (ends_numbersParser (by decide) hdata).bind (Py.ends_pure.2 (congrArg Except.ok hself))

section

variable (hreg : self.Registered type) (hw : self.Writable) (hlen : self.length < 256 ^ 2)
  (rest : Bytes)
include hreg hw hlen

/-- The class of a property reads it from in front of anything. -/
theorem ends_parsed : Py.Ends (parser type (self.bytes type ++ rest)) (.ok self.fixup) := by
  have htype := type_lt_of_registered hreg
  have hrest := getRest_bytes htype hlen rest
  cases self with
  | unknown buf => exact hreg.elim
  | instructions ids =>
    have hkind : type = 0 ∨ type = 1 := hreg
    rw [parser, if_pos hkind, instructionsParser, idsParser, hrest]
    exact (ends_ids hw).bind (Py.ends_pure.2 rfl)
  | nextTables ids =>
    have hkind : type = 2 ∨ type = 3 := hreg
    rw [parser, if_neg (by omega), if_pos hkind, nextTablesParser, hrest]
    exact (ends_numbersParser (by decide) hw).bind (Py.ends_pure.2 rfl)
  | actions ids =>
    have hkind : 4 ≤ type ∧ type ≤ 7 := hreg
    rw [parser, if_neg (by omega), if_neg (by omega), if_pos hkind, actionsParser, idsParser, hrest]
    exact (ends_ids hw).bind (Py.ends_pure.2 rfl)
  | oxm ids =>
    obtain ⟨hkind, hknown⟩ := hreg
    rw [parser, if_neg (by omega), if_neg (by omega), if_neg (by omega), if_pos hkind, oxmParser,
      hrest]
    have hids : Py.Ends (Py.chopRest (fun r => liftM (oxmIdParse r))
        (ids.map OFPOxmId.bytes).flatten) (.ok (ids.map fun i => { i with length := 0 })) := by
      refine Py.ends_chopRest_flatten (fun i hi => ?_) fun i hi rest => Py.ends_lift.2 ?_
      · obtain ⟨f, hf, hname, -⟩ := hknown i hi
        rw [OFPOxmId.bytes_eq hf hname]
        simp [beEncode]
      · have hplain : i.expId = none := hw i hi
        rw [OFPOxmId.oxmIdParse_bytes (hknown i hi) hplain, ← hplain]
    exact hids.bind (Py.ends_pure.2 rfl)
  | experimenter exp expType data =>
    have hkind : type = 0xfffe ∨ type = 0xffff := hreg
    rw [parser, if_neg (by omega), if_neg (by omega), if_neg (by omega), if_neg (by omega),
      if_pos hkind]
    exact ends_experimenterParser htype hw hlen rest

theorem ends_parse :
    Py.Ends (parse (self.bytes type ++ rest)) (.ok ((type, self.fixup), rest)) := by
  rw [parse, unpackFrom_bytes (type_lt_of_registered hreg) hlen]
  refine (ends_parsed hreg hw hlen rest).bind (Py.ends_pure.2 ?_)
  rw [drop_left' (length_bytes type self)]

end

end OFPTableFeatureProp

/-! ## Entries -/

namespace OFPTableFeaturesStats

def propsBytes (self : OFPTableFeaturesStats) : Bytes :=
  (self.properties.map fun p => p.2.bytes p.1).flatten

/-- The length that is announced, that of the whole entry. -/
def length (self : OFPTableFeaturesStats) : Nat := 64 + self.propsBytes.length

def bytes (self : OFPTableFeaturesStats) : Bytes :=
  encode ofpTableFeaturesPackStr
    (.int self.length :: .int self.tableId :: .bytes self.name :: self.vals) ++ self.propsBytes

def Registered (self : OFPTableFeaturesStats) : Prop :=
  ∀ p ∈ self.properties, p.2.Registered p.1

/-- What an entry has to meet: its numbers fit, and the lengths that it announces; its properties
have no id of an experimenter field. -/
structure Writable (entry : OFPTableFeaturesStats) : Prop where
  tableId : entry.tableId < 256
  limits : fits [Q, Q, I, I] entry.vals = true
  length : entry.length < 256 ^ 2
  properties : ∀ p ∈ entry.properties, p.2.Writable ∧ p.2.length < 256 ^ 2

instance (self : OFPTableFeaturesStats) : Decidable self.Registered := by
  unfold Registered
  infer_instance

instance (self : OFPTableFeaturesStats) : Decidable self.Writable :=
  decidable_of_iff (self.tableId < 256 ∧ fits [Q, Q, I, I] self.vals = true ∧
      self.length < 256 ^ 2 ∧ ∀ p ∈ self.properties, p.2.Writable ∧ p.2.length < 256 ^ 2)
    ⟨fun ⟨hid, hvals, hlen, hprops⟩ => ⟨hid, hvals, hlen, hprops⟩,
      fun h => ⟨h.tableId, h.limits, h.length, h.properties⟩⟩

variable {self : OFPTableFeaturesStats}

theorem fits_header_iff : fits ofpTableFeaturesPackStr
    (.int self.length :: .int self.tableId :: .bytes self.name :: self.vals) = true ↔
      self.length < 256 ^ 2 ∧ self.tableId < 256 ∧ fits [Q, Q, I, I] self.vals = true := by
  simp [ofpTableFeaturesPackStr, fits]

theorem serialize_eq_ok_iff (hreg : self.Registered) :
    self.serialize = .ok bs ↔ self.Writable ∧ bs = self.bytes := by
  have hprops : ∀ p ∈ self.properties, ∀ b, p.2.serialize p.1 = .ok b ↔
      (p.2.Writable ∧ p.2.length < 256 ^ 2) ∧ b = p.2.bytes p.1 :=
    fun p hp b => OFPTableFeatureProp.serialize_eq_ok_iff (hreg p hp)
  rw [serialize, bind_eq_ok]
  simp only [mapM_eq_ok_iff hprops, bind_eq_ok, msgPackInto_nil_eq_ok_iff]
  constructor
  · rintro ⟨_, ⟨hw, rfl⟩, _, ⟨hhdr, rfl⟩, h⟩
    cases h
    obtain ⟨hlen, hid, hvals⟩ := fits_header_iff.1 hhdr
    exact ⟨⟨hid, hvals, hlen, hw⟩, rfl⟩
  · rintro ⟨⟨hid, hvals, hlen, hw⟩, rfl⟩
    exact ⟨_, ⟨hw, rfl⟩, _, ⟨fits_header_iff.2 ⟨hlen, hid, hvals⟩, rfl⟩, rfl⟩

/-- The entry that is read: the name comes without the zeros it is filled with. -/
def readBack (self : OFPTableFeaturesStats) : OFPTableFeaturesStats where
  tableId := self.tableId
  name := rstripZeros ((self.name ++ zeros (32 - self.name.length)).take 32)
  vals := self.vals
  properties := self.properties.map fun p => (p.1, p.2.fixup)

theorem length_bytes (hw : self.Writable) :
    self.bytes.length = self.length := by
  rw [bytes, length_append,
    length_encode (fits_header_iff.2 ⟨hw.length, hw.tableId, hw.limits⟩)]
  rfl

/-- The parser of the entries reads an entry wherever it stands. -/
theorem ends_tableFeaturesStatsParser (hreg : self.Registered)
    (hw : self.Writable) {buf : Bytes} {offset : Nat} (hat : At buf offset self.bytes) :
    Py.Ends (tableFeaturesStatsParser buf offset) (.ok (self.readBack, self.length)) := by
  generalize hname : (self.name ++ zeros (32 - self.name.length)).take 32 = name
  have hlenName : name.length = 32 := by
    rw [← hname, length_take, length_append, length_zeros]
    omega
  have hcut : encode ofpTableFeaturesPackStr
      (.int self.length :: .int self.tableId :: .bytes self.name :: self.vals) =
      encode ofpTableFeaturesPackStr
        (.int self.length :: .int self.tableId :: .bytes name :: self.vals) := by
    have hfill : (name ++ zeros (32 - name.length)).take 32 = name := take_left' hlenName
    simp only [ofpTableFeaturesPackStr, encode, hname, hfill]
  have hvals : exact [Q, Q, I, I] self.vals = true := exact_of_fits (by simp) hw.limits
  have hex : exact ofpTableFeaturesPackStr
      (.int self.length :: .int self.tableId :: .bytes name :: self.vals) = true := by
    simpa [ofpTableFeaturesPackStr, Struct.exact, hlenName] using
      ⟨hw.length, hw.tableId, hvals⟩
  rw [bytes, hcut] at hat
  have hslice : slice buf (offset + 64) (offset + self.length) = self.propsBytes := by
    have hprops := hat.right
    rw [length_encode (fits_of_exact hex)] at hprops
    rw [length, ← Nat.add_assoc]
    exact hprops.slice_eq
  have hprops : Py.Ends (Py.chopRest OFPTableFeatureProp.parse self.propsBytes)
      (.ok (self.properties.map fun p => (p.1, p.2.fixup))) :=
    Py.ends_chopRest_flatten (fun p _ => OFPTableFeatureProp.bytes_ne_nil p.1 p.2)
      fun p hp rest => OFPTableFeatureProp.ends_parse (hreg p hp) (hw.properties p hp).1
        (hw.properties p hp).2 rest
  rw [tableFeaturesStatsParser, unpackFrom_at hex (by decide) hat.left]
  simp only [Py.lift_ok_bind, hslice]
  refine hprops.bind (Py.ends_pure.2 ?_)
  rw [readBack, hname]

/-- The same table id, limits and properties, up to the lengths of the elements. -/
def Same (self other : OFPTableFeaturesStats) : Prop :=
  self.tableId = other.tableId ∧ self.vals = other.vals ∧
    (self.properties.map fun p => (p.1, p.2.fixup)) = other.properties.map fun p => (p.1, p.2.fixup)

theorem same_readBack (self : OFPTableFeaturesStats) : self.readBack.Same self := by
  have hfixup : ∀ p : OFPTableFeatureProp, p.fixup.fixup = p.fixup := by
    intro p
    cases p <;> simp [OFPTableFeatureProp.fixup]
  refine ⟨rfl, rfl, ?_⟩
  simp [readBack, hfixup]

/-- Every entry is written; its bytes are read as the same entry, and the joined bytes as the same
list. -/
def RoundTrips (entries : List OFPTableFeaturesStats) : Prop :=
  ∃ bins, entries.mapM serialize = .ok bins ∧
    List.Forall₂ (fun entry bin => ∃ read length,
      Py.Ends (tableFeaturesStatsParser bin 0) (.ok (read, length)) ∧ read.Same entry)
      entries bins ∧
    ∃ reads, Py.Ends (Py.span (tableFeaturesStatsParser bins.flatten) 0 bins.flatten.length)
      (.ok reads) ∧ List.Forall₂ (fun entry read => Same read entry) entries reads

/-- Entries with properties of the registered kinds come back when their numbers and lengths fit and
no property has an id of an experimenter field. -/
theorem tableFeatures_roundTrips_iff {entries : List OFPTableFeaturesStats}
    (hreg : ∀ entry ∈ entries, entry.Registered) :
    RoundTrips entries ↔ ∀ entry ∈ entries, entry.Writable := by
  have hserialize : ∀ entry ∈ entries, ∀ b, entry.serialize = .ok b ↔
      entry.Writable ∧ b = entry.bytes := fun entry he b => serialize_eq_ok_iff (hreg entry he)
  constructor
  · rintro ⟨bins, hbins, -⟩
    exact ((mapM_eq_ok_iff hserialize).1 hbins).1
  · intro hw
    have hread : ∀ entry ∈ entries, ∀ buf offset, At buf offset entry.bytes →
        Py.Ends (tableFeaturesStatsParser buf offset)
          (.ok (entry.readBack, entry.bytes.length)) := by
      intro entry he buf offset hat
      rw [length_bytes (hw entry he)]
      exact ends_tableFeaturesStatsParser (hreg entry he) (hw entry he) hat
    refine ⟨entries.map bytes, (mapM_eq_ok_iff hserialize).2 ⟨hw, rfl⟩, ?_, ?_⟩
    · rw [forall₂_map_right_iff, forall₂_same]
      exact fun entry he => ⟨_, _, hread entry he _ 0 prefix_rfl, same_readBack entry⟩
    · refine Py.ends_span_at entries (fun entry he offset hat => ⟨?_, _, hread entry he _ _ hat,
        same_readBack entry⟩) prefix_rfl
      rw [length_bytes (hw entry he), length]
      omega

theorem roundTrips_allKinds :
    RoundTrips [⟨0, [0x74], [.int 0, .int 0, .int 0, .int 100],
        [(0, .instructions [(1, 4), (4, 4)]), (2, .nextTables [1, 2, 3]), (4, .actions [(0, 4)]),
          (8, .oxm [⟨.named "in_port", none, false, 0⟩, ⟨.named "eth_dst", none, true, 0⟩]),
          (0xffff, .experimenter 101 1 [7])]⟩,
      ⟨1, [], [.int 0, .int 0, .int 0, .int 0], []⟩] :=
  (tableFeatures_roundTrips_iff (by decide +kernel)).2 (by decide +kernel)

/-- The field of the states of Beba as an id of a match property. -/
theorem not_roundTrips_state :
    (OFPTableFeaturesStats.mk 0 [] [.int 0, .int 0, .int 0, .int 0]
        [(8, .oxm [⟨.named "state", some bebaExperimenterId, false, 0⟩])]).Registered ∧
      ¬RoundTrips [⟨0, [], [.int 0, .int 0, .int 0, .int 0],
        [(8, .oxm [⟨.named "state", some bebaExperimenterId, false, 0⟩])]⟩] := by
  refine ⟨by decide +kernel, ?_⟩
  rintro ⟨bins, hbins, -⟩
  obtain ⟨b, -, hb⟩ := exists_of_mapM hbins mem_cons_self
  cases hb

end OFPTableFeaturesStats

end BebaCtrl
