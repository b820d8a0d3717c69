import SamosaChat.Lib.Scanf

set_option autoImplicit false

namespace SamosaChat.Web

open Utf8 Text

structure RobotsPass where
  inGroup : Bool
  groupStarted : Bool
  lastWasAgent : Bool
  haveSpecific : Bool
  bestAllow : Int
  bestDisallow : Int

def trimEnd (drop : UInt8 → Bool) (text : Bytes) : Bytes :=
  (text.reverse.dropWhile drop).reverse

def longest (path rule : Bytes) (best : Int) : Int :=
  if rule ≠ [] ∧ rule.isPrefixOf path ∧ (rule.length : Int) > best then rule.length else best

-- One line of robots.txt. In the specific pass an agent is matched by its start, otherwise only by "*".
def robotsLine (specific : Bool) (want : String) (path : Bytes) (pass : RobotsPass) (line : Bytes) : RobotsPass :=
  let p := skipBlanks (trimEnd (fun c => c == 0x0d || c == 0x20) line)
  if p = [] ∨ p.head? = some 0x23 then pass
  else if startsWith "user-agent:" p then
    let v := skipBlanks (p.drop 11)
    let matches_ := if specific then v ≠ [] && startsWith want v else v == [0x2a]
    let inGroup := if !pass.lastWasAgent && pass.groupStarted then false else pass.inGroup
    { pass with
      inGroup := inGroup || matches_
      haveSpecific := pass.haveSpecific || (matches_ && specific)
      groupStarted := true
      lastWasAgent := true }
  else
    let pass := { pass with lastWasAgent := false }
    if pass.inGroup ∧ startsWith "disallow:" p then
      { pass with bestDisallow := longest path (skipBlanks (p.drop 9)) pass.bestDisallow }
    else if pass.inGroup ∧ startsWith "allow:" p then
      { pass with bestAllow := longest path (skipBlanks (p.drop 6)) pass.bestAllow }
    else pass

def robotsPass (robots : Bytes) (specific : Bool) (want : String) (path : Bytes) : RobotsPass :=
  (lines robots).foldl (robotsLine specific want path)
    { inGroup := false, groupStarted := false, lastWasAgent := false, haveSpecific := false, bestAllow := -1
      bestDisallow := -1 }

def robotsPathAllowed (robots : Bytes) (uaToken : String) (path : Bytes) : Bool :=
  let first := robotsPass robots true uaToken path
  let pass := if first.haveSpecific then first else robotsPass robots false "*" path
  pass.bestDisallow < 0 || pass.bestAllow ≥ pass.bestDisallow

end SamosaChat.Web
