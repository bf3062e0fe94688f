import KubeConsole.Go.URL

/-!
Addresses: what `net.SplitHostPort` cuts apart, what `net/netip` parses, and the prefixes
that hold an address.
-/
namespace KubeConsole.Go

/-- `net.SplitHostPort`: `none` where it reports an error. The port starts behind the last
colon; a host with colons of its own stands in brackets. -/
def splitHostPort (hostport : Str) : Option (Str × Str) :=
  let port := hostport.rtakeWhile (· ≠ chr ':')
  let front := hostport.rdropWhile (· ≠ chr ':')
  let host := front.dropLast
  if front = [] ∨ chr '[' ∈ port ∨ chr ']' ∈ port then none
  else if host.head? = some (chr '[') then
    let inner := host.tail.dropLast
    if host.tail.getLast? = some (chr ']') ∧ chr '[' ∉ inner ∧ chr ']' ∉ inner then
      some (inner, port)
    else none
  else if chr ':' ∈ host ∨ chr '[' ∈ host ∨ chr ']' ∈ host then none
  else some (host, port)

/-- `net.JoinHostPort`. -/
def joinHostPort (host port : Str) : Str :=
  if chr ':' ∈ host then [chr '['] ++ host ++ str "]:" ++ port else host ++ str ":" ++ port

/-- `netip.Addr` of a parsed address. -/
inductive Addr where
  | v4 (addr : BitVec 32)
  | v6 (addr : BitVec 128) (zone : Str)
  deriving DecidableEq, Repr

/-- The value of a string of decimal digits. -/
def decimal (s : Str) : ℕ := s.foldl (fun n b => n * 10 + (b - chr '0').toNat) 0

def isDigit (b : UInt8) : Bool := chr '0' ≤ b && b ≤ chr '9'

/-- One field of `parseIPv4Fields`: no sign, no leading zero, one byte. -/
def parseOctet (s : Str) : Option ℕ :=
  if s ≠ [] ∧ s.all isDigit ∧ (s.length = 1 ∨ s.head? ≠ some (chr '0')) ∧ decimal s ≤ 255 then
    some (decimal s)
  else none

/-- `parseIPv4Fields`. -/
def parseIPv4Fields (s : Str) : Option (ℕ × ℕ × ℕ × ℕ) :=
  match s.splitOn (chr '.') with
  | [a, b, c, d] => do
    return (← parseOctet a, ← parseOctet b, ← parseOctet c, ← parseOctet d)
  | _ => none

/-- The value of a string of hexadecimal digits. -/
def hexadecimal (s : Str) : ℕ := s.foldl (fun n b => n * 16 + ((unhex b).getD 0).toNat) 0

/-- The loop of `parseIPv6`, with room for `room` more groups of 16 bits: the groups it read
and how many of them stand before the ellipsis. -/
def parseGroups (room : ℕ) (ellipsis : Option ℕ) (groups : List ℕ) (s : Str) :
    Option (List ℕ × Option ℕ) :=
  match room with
  | 0 => if s = [] then some (groups, ellipsis) else none
  | room + 1 =>
    let digits := s.takeWhile fun b => (unhex b).isSome
    let groups' := groups ++ [hexadecimal digits]
    if digits = [] ∨ 4 < digits.length then none
    else match s.drop digits.length with
      | [] => some (groups', ellipsis)
      | b :: rest =>
        if b = chr '.' then
          -- the last two groups may be written as an IPv4 address
          if (ellipsis = none ∧ groups.length ≠ 6) ∨ room = 0 then none
          else (parseIPv4Fields s).map fun (a, b, c, d) =>
            (groups ++ [a * 256 + b, c * 256 + d], ellipsis)
        else if b ≠ chr ':' then none
        else match rest with
          | [] => none
          | c :: rest' =>
            if c = chr ':' then
              if ellipsis ≠ none then none
              else if rest' = [] then some (groups', some groups'.length)
              else parseGroups room (some groups'.length) groups' rest'
            else parseGroups room ellipsis groups' rest

/-- The end of `parseIPv6`: the ellipsis stands for the groups that are missing, and for one
at least. -/
def expandGroups (groups : List ℕ) : Option ℕ → Option (List ℕ)
  | none => if groups.length < 8 then none else some groups
  | some e =>
    if groups.length < 8 then
      some (groups.take e ++ List.replicate (8 - groups.length) 0 ++ groups.drop e)
    else none

/-- `parseIPv6`. -/
def parseIPv6 (s : Str) : Option Addr :=
  let zone := (s.dropWhile (· ≠ chr '%')).tail
  let addr := s.takeWhile (· ≠ chr '%')
  if chr '%' ∈ s ∧ zone = [] then none
  else do
    let (groups, ellipsis) ←
      if addr = str "::" then some ([], some 0)
      else if str "::" <+: addr then parseGroups 8 (some 0) [] (addr.drop 2)
      else parseGroups 8 none [] addr
    let groups ← expandGroups groups ellipsis
    return .v6 (BitVec.ofNat 128 (groups.foldl (fun n g => n * 65536 + g) 0)) zone

/-- `netip.ParseAddr`: the first of `.`, `:` and `%` decides. -/
def parseAddr (s : Str) : Option Addr :=
  match s.find? (· ∈ str ".:%") with
  | none => none
  | some b =>
    if b = chr '.' then (parseIPv4Fields s).map fun (a, b, c, d) =>
      .v4 (BitVec.ofNat 32 (((a * 256 + b) * 256 + c) * 256 + d))
    else if b = chr ':' then parseIPv6 s
    else none

namespace Addr

/-- `Addr.Unmap`: an IPv4 address written as an IPv6 one is the IPv4 address. -/
def unmap : Addr → Addr
  | .v6 a zone => if a >>> 32 = 0xFFFF#128 then .v4 (a.setWidth 32) else .v6 a zone
  | a => a

/-- `Addr.WithZone("")`. -/
def withoutZone : Addr → Addr
  | .v6 a _ => .v6 a []
  | a => a

/-- `Addr.IsLoopback`. -/
def isLoopback (a : Addr) : Bool :=
  match a.unmap with
  | .v4 a => a >>> 24 = 127#32
  | .v6 a _ => a = 1#128

end Addr

/-- `netip.Prefix`. -/
structure Prefix where
  addr : Addr
  bits : ℕ
  deriving DecidableEq, Repr

/-- `netip.ParsePrefix`. -/
def parsePrefix (s : Str) : Option Prefix :=
  let bits := s.rtakeWhile (· ≠ chr '/')
  if chr '/' ∉ s then none
  else match parseAddr (s.rdropWhile (· ≠ chr '/')).dropLast with
    | none => none
    | some addr =>
      let max := match addr with | .v4 _ => 32 | .v6 _ _ => 128
      if addr ≠ addr.withoutZone then none
      else if bits = [] ∨ bits.all isDigit = false ∨
          (1 < bits.length ∧ bits.head? = some (chr '0')) ∨ max < decimal bits then none
      else some ⟨addr, decimal bits⟩

/-- `Prefix.Contains`. -/
def Prefix.contains (p : Prefix) (a : Addr) : Bool :=
  match p.addr, a with
  | .v4 b, .v4 a => (a ^^^ b) >>> (32 - p.bits) = 0#32
  | .v6 b _, .v6 a zone => zone = [] && (a ^^^ b) >>> (128 - p.bits) = 0#128
  | _, _ => false

example : (parseAddr (str "::ffff:127.0.0.1")).map Addr.isLoopback = some true := by decide

/-! Hosts and ports. -/

variable {hostport host port : Str}

/-- The host has no brackets, and no colon unless it was written in them. -/
theorem splitHostPort_eq_some (h : splitHostPort hostport = some (host, port)) :
    chr '[' ∉ host ∧ chr ']' ∉ host := by
  simp only [splitHostPort] at h
  split_ifs at h with h1 h2 h3 h4
  · cases h
    exact h3.2
  · cases h
    push Not at h4
    exact h4.2

/-- The last part of what is cut at the last `sep`. -/
theorem rtakeWhile_sep {sep : UInt8} (s : Str) {t : Str} (h : sep ∉ t) :
    (s ++ [sep] ++ t).rtakeWhile (· ≠ sep) = t ∧
      (s ++ [sep] ++ t).rdropWhile (· ≠ sep) = s ++ [sep] := by
  induction t using List.reverseRecOn with
  | nil => simp
  | append_singleton t b ih =>
    simp only [List.mem_append, List.mem_singleton, not_or] at h
    obtain ⟨htake, hdrop⟩ := ih h.1
    rw [← List.append_assoc, List.rtakeWhile_concat, List.rdropWhile_concat, htake, hdrop]
    simp [Ne.symm h.2]

/-- What `JoinHostPort` puts together, `SplitHostPort` takes apart. -/
theorem splitHostPort_joinHostPort (hopen : chr '[' ∉ host) (hclose : chr ']' ∉ host)
    (hport : ∀ b ∈ port, b ∉ str ":[]") :
    splitHostPort (joinHostPort host port) = some (host, port) := by
  have hcolon : chr ':' ∉ port := fun hm => hport _ hm (by decide)
  have hbrackets : chr '[' ∉ port ∧ chr ']' ∉ port :=
    ⟨fun hm => hport _ hm (by decide), fun hm => hport _ hm (by decide)⟩
  by_cases hc : chr ':' ∈ host
  · obtain ⟨htake, hdrop⟩ := rtakeWhile_sep (chr '[' :: (host ++ [chr ']'])) hcolon
    have hjoin : joinHostPort host port =
        chr '[' :: (host ++ [chr ']']) ++ [chr ':'] ++ port := by
      rw [joinHostPort, if_pos hc]
      simp [str, chr]
    simp only [splitHostPort, hjoin, htake, hdrop, List.dropLast_concat]
    simp [hbrackets, hopen, hclose]
  · obtain ⟨htake, hdrop⟩ := rtakeWhile_sep host hcolon
    have hjoin : joinHostPort host port = host ++ [chr ':'] ++ port := by
      rw [joinHostPort, if_neg hc]
      rfl
    have hhead : host.head? ≠ some (chr '[') := fun hh => hopen (List.mem_of_mem_head? hh)
    simp only [splitHostPort, hjoin, htake, hdrop, List.dropLast_concat]
    simp [hbrackets, hopen, hclose, hc, hhead]

end KubeConsole.Go
