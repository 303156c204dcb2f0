import BebaCtrl.Lib.Python

/-!
# Exceptions of the BGP speaker

A `BgpExc` is answered by a NOTIFICATION with its code, every other exception only ends the session.
-/

namespace BebaCtrl.Bgp

/-- The subclasses of `BgpExc` that are raised while messages are received. -/
inductive BgpExc where
  | notSync
  | badLen (msgTypeCode messageLength : Nat)
  | unsupportedVersion (locallySupportVersion : Nat)
  | badPeerAs
  | missingWellKnown (pattrTypeCode : Nat)
  | malformedAsPath
  | finiteStateMachineError
  | collisionResolution
  deriving DecidableEq, Repr

inductive Raised where
  | bgpExc (exc : BgpExc)
  | pyErr (err : PyErr)
  deriving DecidableEq, Repr

end BebaCtrl.Bgp
