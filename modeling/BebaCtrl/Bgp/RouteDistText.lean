import BebaCtrl.Bgp.VpnKeys

/-!
# Route distinguishers from texts

`_RouteDistinguisher.from_str` chooses one of three encodings by the part of the text in front of
the colon. It takes the two-octet form up to the number 65536, which does not fit into two octets.
By `meets_iff_canonical` this is the one administrator that is not serialized; all others come back
in their usual spelling.

Addresses are read by `addrconv.ipv4.text_to_bin`, which is a parameter.
-/

namespace BebaCtrl.Bgp.RouteDistText

open Wire Text

/-! ## The code -/

/-- `first, second = str_.split(':')` -/
def splitColon (str : List Char) : PyResult (List Char × List Char) :=
  match str.dropWhile (· ≠ ':') with
  | [] => .error .valueError
  | _ :: second =>
    if ':' ∈ second then .error .valueError else .ok (str.takeWhile (· ≠ ':'), second)

/-- `int(text)` -/
def int (text : List Char) : PyResult Int :=
  match pyInt text with
  | some i => .ok i
  | none => .error .valueError

/-- An object of the class for the type, with its `admin` and `assigned`. -/
inductive Object where
  | twoOctetAs (admin assigned : Int)
  | ipv4Address (admin : List Char) (assigned : Int)
  | fourOctetAs (admin assigned : Int)
  deriving DecidableEq, Repr

def fromStr (str : List Char) : PyResult Object := do
  let (first, second) ← splitColon str
  if '.' ∈ first then return .ipv4Address first (← int second)
  else if (← int first) > 1 <<< 16 then return .fourOctetAs (← int first) (← int second)
  else return .twoOctetAs (← int first) (← int second)

namespace Object

def formattedStr : Object → List Char
  | twoOctetAs admin assigned => intText admin ++ ':' :: intText assigned
  | ipv4Address admin assigned => admin ++ ':' :: intText assigned
  | fourOctetAs admin assigned => intText admin ++ ':' :: intText assigned

/-- The formats take unsigned numbers only. -/
def unsigned : Int → PyResult Nat
  | .ofNat n => .ok n
  | .negSucc _ => .error .structError

def serialize (textToBin : List Char → PyResult Bytes) : Object → PyResult Bytes
  | twoOctetAs admin assigned => do
    serializeRouteDist (.twoOctetAs (← unsigned admin) (← unsigned assigned))
  | ipv4Address admin assigned => do
    serializeRouteDist (.ipv4Address (← textToBin admin) (← unsigned assigned))
  | fourOctetAs admin assigned => do
    serializeRouteDist (.fourOctetAs (← unsigned admin) (← unsigned assigned))

end Object

/-! ## Texts of valid distinguishers -/

inductive Admin where
  | number (n : Nat)
  | address (octets : Bytes)
  deriving DecidableEq, Repr

variable (textToBin : List Char → PyResult Bytes)

/-- What the parts of a text stand for. -/
def Denotes (first second : List Char) (admin : Admin) (assigned : Nat) : Prop :=
  ':' ∉ first ∧ ':' ∉ second ∧ pyInt second = some ↑assigned ∧
    match admin with
    | .number n => '.' ∉ first ∧ pyInt first = some ↑n
    | .address octets => '.' ∈ first ∧ textToBin first = .ok octets

def Valid : Admin → Nat → Prop
  | .number n, assigned =>
    n < 0x100000000 ∧ (assigned < 0x10000 ∨ n < 0x10000 ∧ assigned < 0x100000000)
  | .address octets, assigned => octets.length = 4 ∧ assigned < 0x10000

/-- The text is accepted and serialized to eight octets, and from them it is read again. -/
def Meets (str : List Char) : Prop :=
  ∃ object buf routeDist, fromStr str = .ok object ∧ object.serialize textToBin = .ok buf ∧
    buf.length = 8 ∧ parseRouteDist buf = .ok routeDist ∧
    routeDist.formattedStr = object.formattedStr ∧ routeDist.formattedStr = str

/-- The usual spelling. -/
def Admin.text : Admin → List Char
  | .number n => decimal n
  | .address octets => ipv4Text octets

/-- The encoding that is chosen. -/
def chosen : Admin → Nat → RouteDistinguisher
  | .number n, assigned => if n > 65536 then .fourOctetAs n assigned else .twoOctetAs n assigned
  | .address octets, assigned => .ipv4Address octets assigned

section Parts

variable {textToBin} {first second : List Char} {admin : Admin} {assigned : Nat}

theorem splitColon_append (hfirst : ':' ∉ first) (hsecond : ':' ∉ second) :
    splitColon (first ++ ':' :: second) = .ok (first, second) := by
  have hpos : ∀ c ∈ first, decide (c ≠ ':') = true := by
    intro c hc
    refine decide_eq_true ?_
    rintro rfl
    exact hfirst hc
  rw [splitColon, List.dropWhile_append_of_pos hpos, List.takeWhile_append_of_pos hpos]
  simp [hsecond]

theorem formattedStr_chosen :
    (chosen admin assigned).formattedStr = admin.text ++ ':' :: decimal assigned := by
  cases admin with
  | number n =>
    simp only [chosen]
    split <;> rfl
  | address octets => rfl

theorem Valid.routeDistOk_iff (h : Valid admin assigned) :
    RouteDistOk (chosen admin assigned) ↔ admin ≠ .number 65536 := by
  cases admin with
  | number n =>
    rw [ne_eq, Admin.number.injEq]
    simp only [Valid] at h
    simp only [chosen]
    split <;> simp only [RouteDistOk] <;> omega
  | address octets => exact iff_of_true h (by simp)

/-- The object that is made writes the chosen encoding, and keeps the text of an address. -/
theorem Denotes.exists_fromStr (h : Denotes textToBin first second admin assigned) :
    ∃ object, fromStr (first ++ ':' :: second) = .ok object ∧
      object.serialize textToBin = serializeRouteDist (chosen admin assigned) ∧
      (first = admin.text → object.formattedStr = admin.text ++ ':' :: decimal assigned) := by
  obtain ⟨hfirst, hsecond, hassigned, hadmin⟩ := h
  have hint : int second = .ok ↑assigned := by rw [int, hassigned]
  unfold fromStr
  rw [splitColon_append hfirst hsecond]
  cases admin with
  | address octets =>
    obtain ⟨hdot, hbin⟩ := hadmin
    refine ⟨.ipv4Address first assigned, ?_, ?_, ?_⟩
    · simp [hdot, hint]
    · simp [Object.serialize, Object.unsigned, hbin, chosen]
    · rintro rfl
      rfl
  | number n =>
    obtain ⟨hdot, hn⟩ := hadmin
    have hint' : int first = .ok ↑n := by rw [int, hn]
    by_cases hbig : n > 65536
    · refine ⟨.fourOctetAs n assigned, ?_, ?_, fun _ => rfl⟩
      · simp [hdot, hint, hint', hbig]
      · simp [Object.serialize, Object.unsigned, chosen, hbig]
    · refine ⟨.twoOctetAs n assigned, ?_, ?_, fun _ => rfl⟩
      · simp [hdot, hint, hint', hbig]
      · simp [Object.serialize, Object.unsigned, chosen, hbig]

/-- Every valid distinguisher but the number 65536 comes back, in its usual spelling. -/
theorem meets_iff_canonical (h : Denotes textToBin first second admin assigned)
    (hvalid : Valid admin assigned) :
    Meets textToBin (first ++ ':' :: second) ↔
      admin ≠ .number 65536 ∧ first = admin.text ∧ second = decimal assigned := by
  have hcolon : ':' ∉ admin.text := by
    cases admin with
    | number n => exact notMem_decimal (by decide) n
    | address octets => exact notMem_octetsText (by decide) (by decide) octets
  obtain ⟨object, hfrom, hserialize, hformatted⟩ := h.exists_fromStr
  constructor
  · rintro ⟨object', buf, routeDist, hfrom', hbuf, -, hparse, -, hstr⟩
    obtain rfl : object = object' := Except.ok.inj (hfrom.symm.trans hfrom')
    rw [hserialize] at hbuf
    have hadmin : admin ≠ .number 65536 := by
      rintro rfl
      cases hbuf
    have hok := hvalid.routeDistOk_iff.2 hadmin
    rw [serializeRouteDist_eq_ok hok] at hbuf
    cases hbuf
    rw [parseRouteDist_routeDistBin hok] at hparse
    cases hparse
    rw [formattedStr_chosen, append_cons_inj_front hcolon h.1] at hstr
    exact ⟨hadmin, hstr.1.symm, hstr.2.symm⟩
  · rintro ⟨hadmin, hfirst, hsecond⟩
    have hok := hvalid.routeDistOk_iff.2 hadmin
    refine ⟨object, _, _, hfrom, hserialize.trans (serializeRouteDist_eq_ok hok),
      length_routeDistBin hok, parseRouteDist_routeDistBin hok, ?_, ?_⟩
    · rw [formattedStr_chosen, hformatted hfirst]
    · rw [formattedStr_chosen, ← hfirst, ← hsecond]

end Parts

/-- A library that reads no address. -/
def noAddress (_ : List Char) : PyResult Bytes := .error .valueError

theorem meets_tenTwenty : Denotes noAddress "10".toList "20".toList (.number 10) 20 ∧
    Valid (.number 10) 20 ∧ Meets noAddress "10:20".toList := by
  have h : Denotes noAddress "10".toList "20".toList (.number 10) 20 := by
    simp [Denotes]
    decide
  have hvalid : Valid (.number 10) 20 := by simp [Valid]
  exact ⟨h, hvalid, (meets_iff_canonical h hvalid).2 (by decide)⟩

/-- The smallest number of four octets is packed as one of two octets. -/
theorem not_meets_65536 : Valid (.number 65536) 1 ∧
    ∀ textToBin, Denotes textToBin "65536".toList "1".toList (.number 65536) 1 ∧
      ¬Meets textToBin "65536:1".toList := by
  refine ⟨by simp [Valid], fun textToBin => ⟨?_, ?_⟩⟩
  · simp [Denotes]
    decide
  · rintro ⟨object, buf, routeDist, hfrom, hbuf, -⟩
    cases hfrom
    cases hbuf

end BebaCtrl.Bgp.RouteDistText
