import BebaCtrl.Beba.OvsDatapath
import BebaCtrl.Lib.History

/-!
# The match specifications kept by the wrapper

`generateNXFlowSpecMatchAndPrereq` keeps the specifications of a table once it has built some. The
scopes they are built from may change afterwards. `scopeSpecs` says what the specifications of two
scopes are, `generate_ok_iff` when a call returns and with what, and `calls_exact_iff` in which runs
of scope changes and calls every call returns the specifications of the scopes of that moment.
-/

namespace BebaCtrl

open Struct PyM

namespace OVSDatapath

/-! ## What the specifications of two scopes are -/

/-- The keyword of the field with header `f`. -/
def fieldName (f : Nat) : OxmName :=
  match numToField (.basic (f >>> 9)) with
  | some field => .named field.name
  | none => .field (f >>> 9)

/-- A header of 32 bits with a value and without a mask. -/
def Readable (f : Nat) : Prop :=
  f < 2 ^ 32 ∧ f >>> 16 ≠ ofpxmcExperimenter ∧ hasmask f = false ∧ 0 < f &&& 0xff

instance (f : Nat) : Decidable (Readable f) := by unfold Readable; infer_instance

/-- The update field against the lookup field, over the full width of the latter. -/
def fieldSpec (lookupField updateField : Nat) : NXFlowSpec :=
  ⟨.subfield (fieldName updateField) 0, .matchField (fieldName lookupField) 0,
    oxmTlvHeaderExtractLength lookupField * 8⟩

/-- The width in bits of a field that is known by its name. -/
def nameBits (name : String) : Nat := ((nameToField name).bind (·.type.size)).getD 0 * 8

def prereqSpec (lookupField : Nat) : Option NXFlowSpec :=
  (options.lookup lookupField).map fun p =>
    ⟨.immediate p.2, .matchField (.named p.1) 0, nameBits p.1⟩

/-- One specification for each position, and the prerequisites of the lookup fields. -/
def scopeSpecs (lookupFields updateFields : List Nat) : List NXFlowSpec :=
  (lookupFields.zip updateFields).flatMap fun p => fieldSpec p.1 p.2 :: (prereqSpec p.1).toList

/-- Scopes that have specifications: every lookup field is registered and has a partner. -/
def Complete (lookupFields updateFields : List Nat) : Prop :=
  lookupFields.length ≤ updateFields.length ∧
    (∀ f ∈ lookupFields, (fieldsHeaders.lookup f).isSome ∧ hasmask f = false) ∧
    ∀ f ∈ updateFields.take lookupFields.length, Readable f

instance (lookupFields updateFields : List Nat) :
    Decidable (Complete lookupFields updateFields) := by
  unfold Complete; infer_instance

theorem complete_nil (updateFields : List Nat) : Complete [] updateFields := by
  simp [Complete]

theorem not_complete_cons_nil (l : Nat) (ls : List Nat) : ¬Complete (l :: ls) [] := by
  simp [Complete]

variable {l u : Nat}

theorem complete_cons {ls us : List Nat} : Complete (l :: ls) (u :: us) ↔
    ((fieldsHeaders.lookup l).isSome ∧ hasmask l = false) ∧ Readable u ∧ Complete ls us := by
  simp only [Complete, List.length_cons, List.take_succ_cons, List.forall_mem_cons]
  grind

/-! ## Building them -/

/-- The specifications kept for a table. -/
def kept (dp : OVSDatapath) (tableId : Nat) : List NXFlowSpec :=
  (dp.flowSpecMatchDict tableId).getD []

/-- The update scope of a table. -/
def updateFields (dp : OVSDatapath) (tableId : Nat) : List Nat := (dp.updateScope tableId).getD []

def putSpec (tableId : Nat) (dp : OVSDatapath) (spec : NXFlowSpec) : OVSDatapath :=
  (addSpec tableId spec dp).2

variable {tableId : Nat} {dp : OVSDatapath} {x : NXFlowSpec}

theorem mem_kept_putSpec {spec : NXFlowSpec} :
    x ∈ (putSpec tableId dp spec).kept tableId ↔ x = spec ∨ x ∈ dp.kept tableId := by
  have h : (putSpec tableId dp spec).kept tableId =
      if spec ∈ dp.kept tableId then dp.kept tableId else dp.kept tableId ++ [spec] := by
    simp only [putSpec, addSpec, kept, modify, modifyGet, MonadStateOf.modifyGet,
      Function.update_self]
    rfl
  rw [h]
  split <;> grind

variable {specs : List NXFlowSpec}

theorem mem_kept_putSpecs :
    x ∈ (specs.foldl (putSpec tableId) dp).kept tableId ↔ x ∈ specs ∨ x ∈ dp.kept tableId := by
  induction specs generalizing dp with
  | nil => simp
  | cons spec specs ih =>
    rw [List.foldl_cons, ih, mem_kept_putSpec, List.mem_cons]
    grind

theorem putSpecs_frame (tableId : Nat) (specs : List NXFlowSpec) (dp : OVSDatapath) :
    (specs.foldl (putSpec tableId) dp).lookupScope = dp.lookupScope ∧
      (specs.foldl (putSpec tableId) dp).updateFields = dp.updateFields ∧
      ∀ t ≠ tableId, (specs.foldl (putSpec tableId) dp).kept t = dp.kept t := by
  induction specs generalizing dp with
  | nil => exact ⟨rfl, rfl, fun _ _ => rfl⟩
  | cons spec specs ih =>
    obtain ⟨hlookup, hupdate, hkept⟩ := ih (putSpec tableId dp spec)
    refine ⟨hlookup, hupdate, fun t ht => (hkept t ht).trans ?_⟩
    simp [kept, putSpec, addSpec, modify, modifyGet, MonadStateOf.modifyGet,
      Function.update_of_ne ht]

theorem fieldsHeaders_readable : ∀ p ∈ fieldsHeaders, hasmask p.1 = false → Readable p.1 := by
  decide +kernel

variable {f : Nat}

theorem readable_of_registered (h : (fieldsHeaders.lookup f).isSome) (hmask : hasmask f = false) :
    Readable f := by
  obtain ⟨cls, hcls⟩ := Option.isSome_iff_exists.1 h
  obtain ⟨l₁, l₂, heq, -⟩ := List.lookup_eq_some_iff.1 hcls
  exact fieldsHeaders_readable (f, cls) (by simp [heq]) hmask

theorem oxmToUserHeader_fieldName (f : Nat) :
    oxmToUserHeader (.basic (f >>> 9)) = .ok (fieldName f) := by
  unfold oxmToUserHeader getFieldInfoByNumber fieldName
  cases numToField (.basic (f >>> 9)) <;> rfl

theorem oxmTlvHeaderExtractLength_of_not_hasmask (h : hasmask f = false) :
    oxmTlvHeaderExtractLength f = f &&& 0xff := if_neg (by simp [h])

theorem parseHeaderImpl_subfield (hf : f < 256 ^ 4) {h : OxmHeader} :
    parseHeaderImpl (encode [I, H] [.int f, .int 0]) 0 = .ok h ↔
      f >>> 16 ≠ ofpxmcExperimenter ∧ 0 < oxmTlvHeaderExtractLength f ∧
      h = ⟨.basic (f >>> 9), 4, hasmask f, oxmTlvHeaderExtractLength f, 4 + (f &&& 0xff)⟩ := by
  have hread : unpackFrom [I] (encode [I, H] [.int f, .int 0]) 0 = .ok [.int f] := by
    apply unpackFrom_at (by simpa [Struct.exact] using hf) (by decide)
    exact ⟨beEncode 2 0, by simp [encode]⟩
  have hshort : unpackFrom [I] (encode [I, H] [.int f, .int 0]) (0 + 4) = .error .structError := by
    rfl
  have hwidth : oxmTlvHeaderExtractLength f =
      if (f >>> 8) &&& 1 = 1 then ((f &&& 0xff) - 0) / 2 else (f &&& 0xff) - 0 := by
    simp only [oxmTlvHeaderExtractLength, hasmask, decide_eq_true_eq, Nat.sub_zero]
  rw [parseHeaderImpl, hread]
  simp only [bind, Except.bind, parseNum, ← Nat.shiftRight_add, hshort, pure, Except.pure]
  by_cases hc : f >>> 16 = ofpxmcExperimenter
  · simp [hc]
  · simp only [ne_eq, hc, not_false_eq_true, true_and, if_false, ← hwidth, Nat.add_zero]
    by_cases hw : 0 < oxmTlvHeaderExtractLength f
    · rw [pyAssert_pos hw]
      simp only [hw, true_and, Except.ok.injEq]
      exact eq_comm
    · simp [hw]

/-- A header with a mask does not end where the value begins, and the experimenter of a 64-bit
header is not there. -/
theorem subfieldOf_ok_iff {p : OxmName × Nat} :
    subfieldOf f = .ok p ↔ Readable f ∧ p = (fieldName f, 0) := by
  constructor
  · intro h
    obtain ⟨buf, hbuf, h⟩ := bind_eq_ok.1 h
    obtain ⟨hfits, rfl⟩ := pack_ok_iff.1 hbuf
    have hf : f < 256 ^ 4 := by simpa [fits] using hfits
    obtain ⟨⟨n, len⟩, hhdr, h⟩ := bind_eq_ok.1 h
    obtain ⟨hdr, himpl, hhdr⟩ := bind_eq_ok.1 hhdr
    obtain ⟨hclass, hpos, rfl⟩ := (parseHeaderImpl_subfield hf).1 himpl
    cases hhdr
    obtain ⟨_, hfour, h⟩ := bind_eq_ok.1 h
    have hfour : 4 + (f &&& 0xff) - oxmTlvHeaderExtractLength f = 4 := of_pyAssert hfour
    -- with a mask the header is longer than four bytes
    have hmask : hasmask f = false := by
      by_contra hm
      rw [oxmTlvHeaderExtractLength, if_pos (by simpa using hm)] at hfour hpos
      omega
    rw [oxmTlvHeaderExtractLength_of_not_hasmask hmask] at hpos h
    have hdrop : (encode [I, H] [.int f, .int 0]).drop (4 + (f &&& 0xff) - (f &&& 0xff)) =
        [0, 0] := by
      rw [Nat.add_sub_cancel]
      rfl
    rw [oxmToUserHeader_fieldName, hdrop] at h
    cases h
    exact ⟨⟨hf, hclass, hmask, hpos⟩, rfl⟩
  · rintro ⟨⟨hlt, hclass, hmask, hpos⟩, rfl⟩
    have hwidth := oxmTlvHeaderExtractLength_of_not_hasmask hmask
    have himpl := (parseHeaderImpl_subfield hlt).2 ⟨hclass, by rwa [hwidth], rfl⟩
    rw [subfieldOf, pack_eq_ok (by simpa [fits] using hlt)]
    simp only [NXFlowSpec.parseSubfield, oxmParseHeader, himpl, hwidth, Nat.add_sub_cancel,
      pyAssert_pos, oxmToUserHeader_fieldName, ok_bind, pure_eq_ok]
    rfl

theorem oxmLen_ok_iff {n : Nat} :
    oxmLen f = .ok n ↔ (fieldsHeaders.lookup f).isSome ∧ n = f &&& 0xff := by
  unfold oxmLen
  cases fieldsHeaders.lookup f <;> simp [eq_comm]

/-- The fields of the prerequisites have one width in the two tables. -/
theorem prereq_header {p : Nat × String × Nat} (hp : p ∈ options) :
    ∃ buf f, NXFlowSpec.serializeSubfield (.named p.2.1) 0 = .ok buf ∧
      unpack [I] (buf.take 4) = .ok [.int f] ∧ oxmLen f = .ok (nameBits p.2.1 / 8) ∧
      nameBits p.2.1 / 8 * 8 = nameBits p.2.1 := by
  have hnames : ∀ p ∈ options,
      p.2.1 = "eth_type" ∨ p.2.1 = "ip_proto" ∨ p.2.1 = "icmpv6_type" := by decide
  rcases hnames p hp with h | h | h <;> rw [h]
  · exact ⟨[0x80, 0, 0x0a, 2, 0, 0], oxmTlvHeader 5 2, by decide +kernel, by decide +kernel,
      by decide +kernel, by decide +kernel⟩
  · exact ⟨[0x80, 0, 0x14, 1, 0, 0], oxmTlvHeader 10 1, by decide +kernel, by decide +kernel,
      by decide +kernel, by decide +kernel⟩
  · exact ⟨[0x80, 0, 0x3a, 1, 0, 0], oxmTlvHeader 29 1, by decide +kernel, by decide +kernel,
      by decide +kernel, by decide +kernel⟩

theorem addPrereqMatch_eq {value : Nat} {name : String}
    (h : options.lookup f = some (name, value)) (dp : OVSDatapath) :
    addPrereqMatch tableId name value dp =
      (.ok (),
        putSpec tableId dp ⟨.immediate value, .matchField (.named name) 0, nameBits name⟩) := by
  obtain ⟨l₁, l₂, heq, -⟩ := List.lookup_eq_some_iff.1 h
  obtain ⟨buf, field, hser, hread, hlen, hbits⟩ :=
    prereq_header (show (f, name, value) ∈ options by simp [heq])
  rw [← hbits]
  exact PyM.bind_eq_ok.2 ⟨buf, dp, PyM.lift_eq_ok.2 ⟨hser, rfl⟩,
    PyM.bind_eq_ok.2 ⟨_, dp, PyM.lift_eq_ok.2 ⟨hread, rfl⟩,
      PyM.bind_eq_ok.2 ⟨_, dp, PyM.lift_eq_ok.2 ⟨hlen, rfl⟩, rfl⟩⟩⟩

variable {ls : List Nat} {idx : Nat}

/-- A round of the loop over the lookup scope whose fields are all readable. -/
theorem addScopes_cons_eq (hl : (fieldsHeaders.lookup l).isSome) (hmask : hasmask l = false)
    (hu : (dp.updateFields tableId)[idx]? = some u) (hread : Readable u) :
    addScopes tableId (l :: ls) idx dp = addScopes tableId ls (idx + 1)
      ((fieldSpec l u :: (prereqSpec l).toList).foldl (putSpec tableId) dp) := by
  cases hscope : dp.updateScope tableId with
  | none => simp [updateFields, hscope] at hu
  | some us =>
    have hu : us[idx]? = some u := by simpa [updateFields, hscope] using hu
    have hsrc := subfieldOf_ok_iff.2 ⟨hread, rfl⟩
    have hdst := subfieldOf_ok_iff.2 ⟨readable_of_registered hl hmask, rfl⟩
    rw [addScopes, lift_bind_of_ok (oxmLen_ok_iff.2 ⟨hl, rfl⟩)]
    rw [bind_of_ok (show (get : OvsM OVSDatapath) dp = (.ok dp, dp) from rfl)]
    simp only [hscope, hu]
    rw [lift_bind_of_ok hsrc]
    rw [lift_bind_of_ok hdst]
    rw [← oxmTlvHeaderExtractLength_of_not_hasmask hmask]
    simp only [prereqSpec]
    cases hopt : options.lookup l with
    | none => rfl
    | some p => exact bind_of_ok (tryCatch_of_ok (addPrereqMatch_eq hopt _) _) _

variable {dp' : OVSDatapath}

/-- A round that ends had all it reads. -/
theorem readable_of_addScopes_cons (h : addScopes tableId (l :: ls) idx dp = (.ok (), dp')) :
    ((fieldsHeaders.lookup l).isSome ∧ hasmask l = false) ∧
      ∃ u, (dp.updateFields tableId)[idx]? = some u ∧ Readable u := by
  obtain ⟨len, dp₁, hlen, h⟩ := PyM.bind_eq_ok.1 h
  obtain ⟨hlen', rfl⟩ := PyM.lift_eq_ok.1 hlen
  obtain ⟨dp₁, dp₂, hget, h⟩ := PyM.bind_eq_ok.1 h
  cases hget
  unfold updateFields
  cases hscope : dp.updateScope tableId with
  | none =>
    rw [hscope] at h
    cases h
  | some us =>
    simp only [hscope] at h
    cases hu : us[idx]? with
    | none =>
      rw [hu] at h
      cases h
    | some u =>
      simp only [hu] at h
      obtain ⟨src, dp₁, hsrc, h⟩ := PyM.bind_eq_ok.1 h
      obtain ⟨hsrc, -⟩ := PyM.lift_eq_ok.1 hsrc
      obtain ⟨dst, dp₁, hdst, -⟩ := PyM.bind_eq_ok.1 h
      obtain ⟨hdst, -⟩ := PyM.lift_eq_ok.1 hdst
      exact ⟨⟨(oxmLen_ok_iff.1 hlen').1, (subfieldOf_ok_iff.1 hdst).1.2.2.1⟩, u, hu,
        (subfieldOf_ok_iff.1 hsrc).1⟩

/-- The loop over the lookup scope ends with a value when the scopes are complete. -/
theorem addScopes_ok_iff :
    addScopes tableId ls idx dp = (.ok (), dp') ↔
      Complete ls ((dp.updateFields tableId).drop idx) ∧
        dp' = (scopeSpecs ls ((dp.updateFields tableId).drop idx)).foldl (putSpec tableId) dp := by
  induction ls generalizing idx dp dp' with
  | nil =>
    simp only [addScopes, complete_nil, true_and, scopeSpecs, List.zip_nil_left, List.flatMap_nil,
      List.foldl_nil]
    constructor
    · intro h
      cases h
      rfl
    · rintro rfl
      rfl
  | cons l ls ih =>
    constructor
    · intro h
      obtain ⟨⟨hl, hmask⟩, u, hu, hread⟩ := readable_of_addScopes_cons h
      have hdrop : (dp.updateFields tableId).drop idx =
          u :: (dp.updateFields tableId).drop (idx + 1) := by
        obtain ⟨hlt, hget⟩ := List.getElem?_eq_some_iff.1 hu
        rw [List.drop_eq_getElem_cons hlt, hget]
      rw [addScopes_cons_eq hl hmask hu hread, ih, (putSpecs_frame ..).2.1] at h
      obtain ⟨hcomplete, rfl⟩ := h
      rw [hdrop]
      refine ⟨complete_cons.2 ⟨⟨hl, hmask⟩, hread, hcomplete⟩, ?_⟩
      simp [scopeSpecs]
    · rintro ⟨hcomplete, rfl⟩
      cases hdrop : (dp.updateFields tableId).drop idx with
      | nil =>
        rw [hdrop] at hcomplete
        exact absurd hcomplete (not_complete_cons_nil l ls)
      | cons u us =>
        rw [hdrop] at hcomplete
        obtain ⟨⟨hl, hmask⟩, hread, hcomplete⟩ := complete_cons.1 hcomplete
        have hu : (dp.updateFields tableId)[idx]? = some u := by
          rw [← List.head?_drop, hdrop]
          rfl
        have hus : (dp.updateFields tableId).drop (idx + 1) = us := by
          rw [← List.tail_drop, hdrop]
          rfl
        rw [addScopes_cons_eq hl hmask hu hread, ih, (putSpecs_frame ..).2.1, hus]
        refine ⟨hcomplete, ?_⟩
        simp [scopeSpecs]

/-! ## Calls -/

/-- The specifications that a call returns if none are kept yet. -/
def built (dp : OVSDatapath) (tableId : Nat) (lookupFields : List Nat) : OVSDatapath :=
  (scopeSpecs lookupFields (dp.updateFields tableId)).foldl (putSpec tableId)
    { dp with flowSpecMatchDict := Function.update dp.flowSpecMatchDict tableId (some []) }

theorem mem_kept_built {lookupFields : List Nat} :
    x ∈ (dp.built tableId lookupFields).kept tableId ↔
      x ∈ scopeSpecs lookupFields (dp.updateFields tableId) := by
  rw [built, mem_kept_putSpecs]
  simp [kept]

theorem generate_of_kept (h : dp.kept tableId ≠ []) :
    generateNXFlowSpecMatchAndPrereq tableId dp = (.ok (dp.kept tableId), dp) := by
  unfold kept at h ⊢
  refine (bind_of_ok (show (get : OvsM OVSDatapath) dp = (.ok dp, dp) from rfl) _).trans ?_
  match hdict : dp.flowSpecMatchDict tableId with
  | none => simp [hdict] at h
  | some [] => simp [hdict] at h
  | some (spec :: specs) => rfl

theorem generate_ok_iff_of_not_kept (h : dp.kept tableId = []) :
    generateNXFlowSpecMatchAndPrereq tableId dp = (.ok specs, dp') ↔
      ∃ lookupFields, dp.lookupScope tableId = some lookupFields ∧
        Complete lookupFields (dp.updateFields tableId) ∧
        dp' = dp.built tableId lookupFields ∧ specs = dp'.kept tableId := by
  have hunfold : generateNXFlowSpecMatchAndPrereq tableId dp =
      (match dp.lookupScope tableId with
        | some lookupFields => addScopes tableId lookupFields 0 >>= fun _ =>
          get >>= fun dp => pure ((dp.flowSpecMatchDict tableId).getD [])
        | none => throw .keyError : OvsM (List NXFlowSpec))
      { dp with flowSpecMatchDict := Function.update dp.flowSpecMatchDict tableId (some []) } := by
    unfold kept at h
    refine (bind_of_ok (show (get : OvsM OVSDatapath) dp = (.ok dp, dp) from rfl) _).trans ?_
    match hdict : dp.flowSpecMatchDict tableId with
    | none | some [] => cases dp.lookupScope tableId <;> rfl
    | some (spec :: specs) => simp [hdict] at h
  rw [hunfold]
  cases hscope : dp.lookupScope tableId with
  | none =>
    constructor
    · intro h
      cases h
    · rintro ⟨_, hnone, -⟩
      cases hnone
  | some lookupFields =>
    constructor
    · intro h
      obtain ⟨_, dp₁, hadd, h⟩ := PyM.bind_eq_ok.1 h
      obtain ⟨hcomplete, rfl⟩ := addScopes_ok_iff.1 hadd
      cases h
      exact ⟨lookupFields, rfl, hcomplete, rfl, rfl⟩
    · rintro ⟨_, heq, hcomplete, rfl, rfl⟩
      cases heq
      exact PyM.bind_eq_ok.2 ⟨(), _, addScopes_ok_iff.2 ⟨hcomplete, rfl⟩, rfl⟩

/-- The call for a table returns the specifications of the scopes the table has. -/
def CallExact (dp : OVSDatapath) (tableId : Nat) : Prop :=
  ∃ lookupFields specs, dp.lookupScope tableId = some lookupFields ∧
    Complete lookupFields (dp.updateFields tableId) ∧
    (generateNXFlowSpecMatchAndPrereq tableId dp).1 = .ok specs ∧
    ∀ spec, spec ∈ specs ↔ spec ∈ scopeSpecs lookupFields (dp.updateFields tableId)

/-- No specifications, or those of the other list. -/
def NoneOr (specs specs' : List NXFlowSpec) : Prop :=
  specs = [] ∨ ∀ spec, spec ∈ specs ↔ spec ∈ specs'

theorem NoneOr.trans {specs₁ specs₂ specs₃ : List NXFlowSpec} (h : NoneOr specs₁ specs₂)
    (h' : NoneOr specs₂ specs₃) : NoneOr specs₁ specs₃ := by
  rcases h with h | h
  · exact .inl h
  · rcases h' with rfl | h'
    · exact .inl (List.eq_nil_iff_forall_not_mem.2 (by simp [h]))
    · exact .inr fun spec => (h spec).trans (h' spec)

/-- A call uses what is kept for its table, whatever the scopes are now. -/
theorem callExact_iff :
    CallExact dp tableId ↔ ∃ lookupFields, dp.lookupScope tableId = some lookupFields ∧
      Complete lookupFields (dp.updateFields tableId) ∧
      NoneOr (dp.kept tableId) (scopeSpecs lookupFields (dp.updateFields tableId)) := by
  by_cases hkept : dp.kept tableId = []
  · constructor
    · rintro ⟨lookupFields, specs, hscope, hcomplete, -⟩
      exact ⟨lookupFields, hscope, hcomplete, .inl hkept⟩
    · rintro ⟨lookupFields, hscope, hcomplete, -⟩
      have hcall :=
        (generate_ok_iff_of_not_kept hkept).2 ⟨lookupFields, hscope, hcomplete, rfl, rfl⟩
      exact ⟨lookupFields, _, hscope, hcomplete, congrArg Prod.fst hcall,
        fun spec => mem_kept_built⟩
  · have hcall := congrArg Prod.fst (generate_of_kept hkept)
    constructor
    · rintro ⟨lookupFields, specs, hscope, hcomplete, hspecs, hmem⟩
      cases hcall.symm.trans hspecs
      exact ⟨lookupFields, hscope, hcomplete, .inr hmem⟩
    · rintro ⟨lookupFields, hscope, hcomplete, hmem⟩
      exact ⟨lookupFields, _, hscope, hcomplete, hcall, hmem.resolve_left hkept⟩

/-- What such a call leaves. -/
theorem CallExact.generate (h : CallExact dp tableId) :
    let dp' := (generateNXFlowSpecMatchAndPrereq tableId dp).2
    dp'.lookupScope = dp.lookupScope ∧ dp'.updateFields = dp.updateFields ∧
      (∀ t ≠ tableId, dp'.kept t = dp.kept t) ∧
      ∀ spec, spec ∈ dp'.kept tableId ↔
        spec ∈ scopeSpecs ((dp.lookupScope tableId).getD []) (dp.updateFields tableId) := by
  obtain ⟨lookupFields, hscope, hcomplete, hmem⟩ := callExact_iff.1 h
  rw [hscope]
  by_cases hkept : dp.kept tableId = []
  · rw [(generate_ok_iff_of_not_kept hkept).2 ⟨lookupFields, hscope, hcomplete, rfl, rfl⟩]
    obtain ⟨hlookup, hupdate, hother⟩ := putSpecs_frame tableId
      (scopeSpecs lookupFields (dp.updateFields tableId))
      { dp with flowSpecMatchDict := Function.update dp.flowSpecMatchDict tableId (some []) }
    refine ⟨hlookup, hupdate, fun t ht => (hother t ht).trans ?_,
      fun spec => mem_kept_built⟩
    simp [kept, Function.update_of_ne ht]
  · rw [generate_of_kept hkept]
    exact ⟨rfl, rfl, fun _ _ => rfl, hmem.resolve_left hkept⟩

/-! ## Runs -/

/-- A scope of a table is assigned, or its specifications are asked for. -/
inductive ScopeEvent where
  | setLookup (tableId : Nat) (fields : List Nat)
  | setUpdate (tableId : Nat) (fields : List Nat)
  | generate (tableId : Nat)
  deriving DecidableEq, Repr

def scopeStep (dp : OVSDatapath) : ScopeEvent → OVSDatapath
  | .setLookup tableId fields => { dp with lookupScope := dp.lookupScope.set tableId fields }
  | .setUpdate tableId fields => { dp with updateScope := dp.updateScope.set tableId fields }
  | .generate tableId => (generateNXFlowSpecMatchAndPrereq tableId dp).2

def scopeRun (dp : OVSDatapath) (events : List ScopeEvent) : OVSDatapath :=
  events.foldl scopeStep dp

/-- The lookup scope that the events give a table. -/
def lookupOf (tableId : Nat) : List ScopeEvent → Option (List Nat) :=
  History.latest (fun
    | .setLookup t fields => if t = tableId then some (some fields) else none
    | _ => none) none

/-- The update scope that the events give a table. -/
def updateOf (tableId : Nat) : List ScopeEvent → List Nat :=
  History.latest (fun
    | .setUpdate t fields => if t = tableId then some fields else none
    | _ => none) []

/-- The specifications of the scopes that the events give a table. -/
def specsOf (tableId : Nat) (events : List ScopeEvent) : List NXFlowSpec :=
  scopeSpecs ((lookupOf tableId events).getD []) (updateOf tableId events)

/-- The events give a table complete scopes, and each earlier call for it was made when its scopes
had these specifications or none. -/
def Settled (tableId : Nat) (events : List ScopeEvent) : Prop :=
  (∃ lookupFields, lookupOf tableId events = some lookupFields ∧
    Complete lookupFields (updateOf tableId events)) ∧
  ∀ before after, events = before ++ .generate tableId :: after →
    NoneOr (specsOf tableId before) (specsOf tableId events)

/-- The wrapper has the scopes that the events give, and keeps what the earlier calls built. -/
structure Follows (dp : OVSDatapath) (events : List ScopeEvent) : Prop where
  lookup : ∀ t, dp.lookupScope t = lookupOf t events
  update : ∀ t, dp.updateFields t = updateOf t events
  kept : ∀ t (specs : List NXFlowSpec), NoneOr (dp.kept t) specs ↔
    History.Throughout (fun before event => event = .generate t → NoneOr (specsOf t before) specs)
      events

variable {events : List ScopeEvent}

theorem Follows.callExact_iff (h : Follows dp events) :
    CallExact dp tableId ↔ Settled tableId events := by
  rw [OVSDatapath.callExact_iff, Settled, h.lookup, h.update]
  constructor
  · rintro ⟨lookupFields, hlookup, hcomplete, hkept⟩
    refine ⟨⟨lookupFields, hlookup, hcomplete⟩, History.throughout_event_iff.1 ?_⟩
    simpa [specsOf, hlookup] using (h.kept tableId _).1 hkept
  · rintro ⟨⟨lookupFields, hlookup, hcomplete⟩, hcalls⟩
    refine ⟨lookupFields, hlookup, hcomplete, ?_⟩
    simpa [specsOf, hlookup] using (h.kept tableId _).2 (History.throughout_event_iff.2 hcalls)

/-- The scopes that an event changes, and a call that is right. -/
theorem Follows.step (h : Follows dp events) {event : ScopeEvent}
    (hexact : ∀ t, event = .generate t → CallExact dp t) :
    Follows (scopeStep dp event) (events ++ [event]) := by
  cases event with
  | setLookup tableId fields | setUpdate tableId fields =>
    refine ⟨fun t => ?_, fun t => ?_, fun t specs => ?_⟩
    · have hlookup := h.lookup t
      simp only [lookupOf, History.latest_concat, scopeStep, Scope.set, Function.update_apply] at *
      grind
    · have hupdate := h.update t
      simp only [updateOf, History.latest_concat, scopeStep, Scope.set, updateFields,
        Function.update_apply] at *
      grind
    · rw [History.throughout_concat, and_iff_left (by simp)]
      exact h.kept t specs
  | generate tableId =>
    obtain ⟨hlookup, hupdate, hother, hbuilt⟩ := (hexact tableId rfl).generate
    rw [h.lookup, h.update] at hbuilt
    refine ⟨fun t => ?_, fun t => ?_, fun t specs => ?_⟩
    · rw [scopeStep, hlookup, h.lookup, lookupOf, History.latest_concat, Option.getD_none]
    · rw [scopeStep, hupdate, h.update, updateOf, History.latest_concat, Option.getD_none]
    · rw [History.throughout_concat, scopeStep]
      rcases eq_or_ne t tableId with rfl | hne
      · -- what is kept now are the specifications of this call, and the earlier ones had no others
        have hearlier := (h.callExact_iff.1 (hexact t rfl)).2
        rw [History.throughout_event_iff]
        constructor
        · intro hnow
          have hlast : NoneOr (specsOf t events) specs :=
            NoneOr.trans (.inr fun spec => (hbuilt spec).symm) hnow
          exact ⟨fun before after heq => (hearlier before after heq).trans hlast, fun _ => hlast⟩
        · rintro ⟨-, hlast⟩
          exact NoneOr.trans (.inr hbuilt) (hlast rfl)
      · rw [hother t hne, h.kept t specs, and_iff_left (by simp [hne.symm])]

/-- Every call of a run returns the specifications of the scopes of that moment exactly when before
each call its table was given complete scopes and no earlier call was made for it with scopes of
other specifications. -/
theorem calls_exact_iff (xid : Nat) (events : List ScopeEvent) :
    (∀ before tableId after, events = before ++ .generate tableId :: after →
      CallExact (scopeRun (beba2OVSWrapper xid) before) tableId) ↔
    ∀ before tableId after, events = before ++ .generate tableId :: after →
      Settled tableId before := by
  have hcalls : ∀ R : Nat → List ScopeEvent → Prop,
      (∀ before tableId after, events = before ++ .generate tableId :: after → R tableId before) ↔
        History.Throughout (fun before event => ∀ t, event = .generate t → R t before) events := by
    intro R
    constructor
    · rintro h before _ after heq t rfl
      exact h before t after heq
    · intro h before t after heq
      exact h before _ after heq t rfl
  rw [hcalls fun t before => CallExact (scopeRun (beba2OVSWrapper xid) before) t, hcalls Settled]
  refine History.throughout_iff
    (fun before => Follows (scopeRun (beba2OVSWrapper xid) before) before)
    ⟨fun t => rfl, fun t => rfl, fun t specs => ?_⟩ (fun before event h => ?_)
    (fun before event h hsettled => ?_) events
  · exact iff_of_true (.inl rfl) History.throughout_nil
  · exact forall₂_congr fun t _ => h.callExact_iff
  · rw [scopeRun, List.foldl_concat]
    exact h.step fun t ht => h.callExact_iff.2 (hsettled t ht)

/-- The scopes of a table move from Ethernet to IPv4 addresses between two calls; the second call
returns the match on the Ethernet address. -/
theorem generate_stale :
    let dp := scopeRun (beba2OVSWrapper 0)
      [.setLookup 0 [oxmTlvHeader 4 6], .setUpdate 0 [oxmTlvHeader 3 6], .generate 0,
        .setLookup 0 [oxmTlvHeader 11 4], .setUpdate 0 [oxmTlvHeader 12 4]]
    (generateNXFlowSpecMatchAndPrereq 0 dp).1 =
        .ok [fieldSpec (oxmTlvHeader 4 6) (oxmTlvHeader 3 6)] ∧
      ¬CallExact dp 0 := by
  intro dp
  have hcall : (generateNXFlowSpecMatchAndPrereq 0 dp).1 =
      .ok [fieldSpec (oxmTlvHeader 4 6) (oxmTlvHeader 3 6)] := by decide +kernel
  refine ⟨hcall, ?_⟩
  rintro ⟨lookupFields, specs, hscope, -, hspecs, hmem⟩
  cases hscope.symm.trans (show dp.lookupScope 0 = some [oxmTlvHeader 11 4] by decide +kernel)
  cases hspecs.symm.trans hcall
  have hold := (hmem (fieldSpec (oxmTlvHeader 4 6) (oxmTlvHeader 3 6))).1 (by simp)
  exact absurd hold (by decide +kernel)

end OVSDatapath

end BebaCtrl
