import BebaCtrl.Bgp.RouteDistText

/-!
# Route target membership

The class `RouteTargetMembershipNLRI` keeps its arguments in `origin_as` and `route_target`, and its
serializer asks for `_origin_as`. So an MP_REACH_NLRI attribute of this family can be written only
without routes (`meets_iff_nil`); the base model's `toBin` of such a route is this exception, and
its `parseNlri` the one of the parser.

The value of the attribute is modelled; the header in front of it is the one of all attributes.
-/

namespace BebaCtrl.Bgp.Membership

open Wire Struct RouteDistText

/-- The values that an argument or an attribute can have. `DEFAULT_AS` and `DEFAULT_RT` are one
object, and `is` asks for it. -/
inductive Value where
  | int (n : Int)
  | text (text : List Char)
  | default
  | extendedCommunity (buf : Bytes)
  deriving DecidableEq, Repr

/-- The attributes that the constructor sets. -/
structure RouteTargetMembershipNLRI where
  originAs : Value
  routeTarget : Value
  deriving DecidableEq, Repr

/-- The names that the methods ask for. -/
inductive Name where
  | originAs
  | routeTarget
  | privateOriginAs
  | privateRouteTarget
  deriving DecidableEq, Repr

def getattr (nlri : RouteTargetMembershipNLRI) : Name → PyResult Value
  | .originAs => .ok nlri.originAs
  | .routeTarget => .ok nlri.routeTarget
  | .privateOriginAs | .privateRouteTarget => .error .attributeError

def isValidOldAsn : Value → Bool
  | .int asn => ¬(asn < 0 ∨ asn > 2 ^ 16 - 1)
  | _ => false

/-- `socket` is not imported, so that both a dotted first part and a part that is no number end with
an exception, the second because the names of the exceptions to catch are looked up. -/
def isValidText (attr : List Char) : PyResult Bool := do
  let (first, second) ← splitColon attr
  if '.' ∈ first then throw (.other "NameError")
  else if (Text.pyInt first).isSome && (Text.pyInt second).isSome then return true
  else throw (.other "NameError")

def isValidExtCommAttr : Value → PyResult Bool
  | .text attr => isValidText attr
  | .default => isValidText "0:0".toList
  | _ => return false

def init (originAs routeTarget : Value) : PyResult RouteTargetMembershipNLRI := do
  if ¬(originAs = .default ∧ routeTarget = .default) then
    if ¬isValidOldAsn originAs ∨ ¬(← isValidExtCommAttr routeTarget) then throw .valueError
  return ⟨originAs, routeTarget⟩

/-- The caller unpacks a pair, and would get one object. -/
def parser (buf : Bytes) : PyResult (RouteTargetMembershipNLRI × Bytes) :=
  if buf.length < 4 then .error .structError
  else do
    let _ ← init (.int (uint buf 0 4)) (.extendedCommunity (buf.drop 4))
    throw .typeError

/-- `BGPPathAttributeMpReachNLRI.parse_value` for this family -/
def parseValue (buf : Bytes) : PyResult (Bytes × List RouteTargetMembershipNLRI) :=
  if buf.length < 4 then .error .structError
  else do
    let nextHopLen := uint buf 3 4
    let rest := (buf.drop 4).drop nextHopLen
    pyAssert (rest.take 1 = [0])
    let nlri ← parseAll parser (rest.drop 1)
    return (← addrOfBin 4 ((buf.drop 4).take nextHopLen), nlri)

def isDefaultRtnlri (nlri : RouteTargetMembershipNLRI) : PyResult Bool := do
  if (← getattr nlri .privateOriginAs) = .default then
    return (← getattr nlri .privateRouteTarget) = .default
  else return false

def packAs : Value → PyResult Bytes
  | .int (.ofNat n) => pack [I] [.int n]
  | _ => .error .structError

/-- `route_target.serialize()`: numbers and texts do not have the method, and the community that the
parser makes has no `value` to write. -/
def serializeTarget : Value → PyResult Bytes
  | _ => .error .attributeError

def serialize (nlri : RouteTargetMembershipNLRI) : PyResult Bytes := do
  let rtNlri ←
    if ← isDefaultRtnlri nlri then pure []
    else do
      let originAs ← packAs (← getattr nlri .originAs)
      let routeTarget ← serializeTarget (← getattr nlri .routeTarget)
      pure (originAs ++ routeTarget)
  return beEncode 1 (8 * 12) ++ rtNlri

/-- `BGPPathAttributeMpReachNLRI.serialize_value` for this family -/
def serializeValue (nextHop : Bytes) (nlri : List RouteTargetMembershipNLRI) : PyResult Bytes := do
  let buf ← pack [H, B, B] [.int rfRTCUC.afi, .int rfRTCUC.safi, .int nextHop.length]
  let binnlri ← nlri.mapM serialize
  return buf ++ nextHop ++ [0] ++ binnlri.flatten

/-- The attribute is built from pairs of arguments, written, and parsed to the same routes. -/
def Meets (nextHop : Bytes) (args : List (Value × Value)) : Prop :=
  ∃ nlri value, args.mapM (fun arg => init arg.1 arg.2) = .ok nlri ∧
    serializeValue nextHop nlri = .ok value ∧ parseValue value = .ok (nextHop, nlri)

variable {nextHop : Bytes} {args : List (Value × Value)}

theorem serializeValue_nil (hnext : nextHop.length = 4) :
    serializeValue nextHop [] = .ok ([0, 1, 132, 4] ++ (nextHop ++ [0])) := by
  have hhead : pack [H, B, B] [.int rfRTCUC.afi, .int rfRTCUC.safi, .int 4] =
      .ok [0, 1, 132, 4] := by decide
  simp [serializeValue, hnext, hhead]

theorem parseValue_nil (hnext : nextHop.length = 4) :
    parseValue ([0, 1, 132, 4] ++ (nextHop ++ [0])) = .ok (nextHop, []) := by
  have hlen : uint ([0, 1, 132, 4] ++ (nextHop ++ [0])) 3 4 = nextHop.length := by
    rw [hnext]
    rfl
  have hdrop : ([0, 1, 132, 4] ++ (nextHop ++ [0])).drop 4 = nextHop ++ [0] := rfl
  rw [parseValue, if_neg (by simp), hlen, hdrop]
  simp [addrOfBin, hnext, parseAll, parseItems]

/-- Only the attribute without routes is written. -/
theorem meets_iff_nil (hnext : nextHop.length = 4) : Meets nextHop args ↔ args = [] := by
  constructor
  · rintro ⟨nlri, value, hinit, hvalue, -⟩
    cases args with
    | nil => rfl
    | cons arg args =>
      rw [List.mapM_cons] at hinit
      obtain ⟨first, -, hrest⟩ := bind_eq_ok.1 hinit
      obtain ⟨others, -, hnlri⟩ := bind_eq_ok.1 hrest
      cases hnlri
      obtain ⟨buf, -, hbuf⟩ := bind_eq_ok.1 hvalue
      cases hbuf
  · rintro rfl
    exact ⟨[], _, rfl, serializeValue_nil hnext, parseValue_nil hnext⟩

theorem meets_nil_loopback : [127, 0, 0, 1].length = 4 ∧ Meets [127, 0, 0, 1] [] :=
  ⟨rfl, (meets_iff_nil rfl).2 rfl⟩

/-- The constructor takes the arguments, and the attribute cannot be written. -/
theorem not_meets_65000 : init (.int 65000) (.text "65000:1".toList) =
      .ok ⟨.int 65000, .text "65000:1".toList⟩ ∧
    ¬Meets [127, 0, 0, 1] [(.int 65000, .text "65000:1".toList)] := by
  refine ⟨by decide, ?_⟩
  rintro ⟨nlri, value, hinit, hvalue, -⟩
  cases hinit
  cases hvalue

end BebaCtrl.Bgp.Membership
