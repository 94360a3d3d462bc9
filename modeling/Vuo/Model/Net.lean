import Mathlib.Data.List.Infix
import Vuo.Model.Primitives

/-!
# The network of the phone

What the kernel's route files say of the default route, and whether automatic
work may use it. Columns are separated by white space.
-/

namespace Vuo.Net

/-- What the default route runs over. -/
inductive Network
  | wifi
  | metered
  | offline
  | unknown
  deriving DecidableEq

/-- Whether automatic work may run over this. -/
def Network.allows (wifiOnly : Bool) : Network → Bool
  | unknown | wifi => true
  | metered => !wifiOnly
  | offline => false

/-! ## Text -/

def stripCarriageReturn (line : List Char) : List Char :=
  if line.getLast? = some '\r' then line.dropLast else line

/-- `str::lines` -/
def lines (text : List Char) : List (List Char) :=
  let pieces := text.splitOn '\n'
  pieces.dropLast.map stripCarriageReturn ++ pieces.getLast?.toList.filter fun last => last ≠ []

def hexDigit (c : Char) : Option ℕ :=
  if '0' ≤ c ∧ c ≤ '9' then some (c.toNat - 48)
  else if 'a' ≤ c ∧ c ≤ 'f' then some (c.toNat - 87)
  else if 'A' ≤ c ∧ c ≤ 'F' then some (c.toNat - 55)
  else none

/-- `u32::from_str_radix(s, 16)`: an optional plus sign and digits that fit. -/
def parseHexU32 (s : List Char) : Option ℕ :=
  let digits := match s with
    | '+' :: rest => rest
    | _ => s
  if digits = [] then none
  else
    (digits.foldl (fun acc c => acc.bind fun n => (hexDigit c).map fun d => 16 * n + d)
      (some 0)).filter fun n => n < 4294967296

/-- Nothing is left once the zeros at the start are gone. -/
def isZeros (column : List Char) : Bool :=
  column.dropWhile (fun c => c = '0') = []

/-! ## Routes -/

def loopback : List Char :=
  ['l', 'o']

/-- The flag of a route that is up. -/
def rtfUp : ℕ := 0x1

/-- The interface of a line of `/proc/net/route`, if it is a default route. -/
def defaultRouteIfaceV4 (line : List Char) : Option (List Char) :=
  match splitWhitespace line with
  | iface :: destination :: _gateway :: flags :: _refcnt :: _use :: _metric :: mask :: _ =>
      (parseHexU32 flags).bind fun flags =>
        let isDefault := isZeros destination && isZeros mask
        let up := flags &&& rtfUp ≠ 0
        if isDefault ∧ up ∧ iface ≠ loopback then some iface else none
  | _ => none

/-- The first line is a header. -/
def defaultRouteIfacesV4 (text : List Char) : List (List Char) :=
  ((lines text).drop 1).filterMap defaultRouteIfaceV4

/-- The interface of a line of `/proc/net/ipv6_route`, if it is a default route. -/
def defaultRouteIfaceV6 (line : List Char) : Option (List Char) :=
  let columns := splitWhitespace line
  columns.head?.bind fun destination =>
    columns[1]?.bind fun prefixLength =>
      columns.getLast?.bind fun iface =>
        let isDefault := isZeros destination && isZeros prefixLength
        if isDefault ∧ iface ≠ loopback then some iface else none

def defaultRouteIfacesV6 (text : List Char) : List (List Char) :=
  (lines text).filterMap defaultRouteIfaceV6

/-! ## The probe -/

/-- What the probe finds under a root: the two files, as far as they can be read,
and the markers of the interfaces. -/
structure Root where
  route : Option (List Char)
  ipv6Route : Option (List Char)
  marked : List Char → String → Bool

/-- Whether the kernel calls an interface wireless. Its name must not be a path. -/
def isWireless (root : Root) (iface : List Char) : Bool :=
  if iface = [] ∨ '/' ∈ iface ∨ ['.', '.'] <:+: iface then false
  else ["phy80211", "wireless"].any (root.marked iface)

def probeUnder (root : Root) : Network :=
  if root.route = none ∧ root.ipv6Route = none then .unknown
  else
    let ifaces := (root.route.map defaultRouteIfacesV4).getD [] ++
      (root.ipv6Route.map defaultRouteIfacesV6).getD []
    if ifaces = [] then .offline
    else if ifaces.any (isWireless root) then .wifi
    else .metered

end Vuo.Net
