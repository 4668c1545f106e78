import Shyake.Go.Netip

/-!
# Whose request it is

The address a request is counted under: the peer's, or the one the last trusted proxy
gives in `X-Forwarded-For`.
-/

namespace Shyake.Go

open Netip (Addr Prefix parseAddr parseAddrPort)

/-! ## `strings.TrimSpace` -/

/-- The characters of `unicode.IsSpace` in UTF-8. -/
def spaces : List Bytes :=
  [[9], [10], [11], [12], [13], [32], [0xc2, 0x85], [0xc2, 0xa0], [0xe1, 0x9a, 0x80]] ++
    ((List.range 11).map fun i => [0xe2, 0x80, 0x80 + UInt8.ofNat i]) ++
    [[0xe2, 0x80, 0xa8], [0xe2, 0x80, 0xa9], [0xe2, 0x80, 0xaf], [0xe2, 0x81, 0x9f],
      [0xe3, 0x80, 0x80]]

/-- Drops `words` from the front as long as there is one; `n` bounds the number of them. -/
def dropWords (words : List Bytes) : Nat → Bytes → Bytes
  | 0, s => s
  | n + 1, s =>
    match words.find? (·.isPrefixOf s) with
    | some w => dropWords words n (s.drop w.length)
    | none => s

def trimSpace (s : Bytes) : Bytes :=
  let s := dropWords spaces s.length s
  (dropWords (spaces.map List.reverse) s.length s.reverse).reverse

/-! ## The server -/

section ClientIP

variable (trustedProxies : List Prefix)

def trusted (ip : Addr) : Bool := trustedProxies.any (·.contains ip)

/-- The loop of `clientIP`, over the hops from right to left. -/
def clientIPLoop (ip : Addr) : List Bytes → Addr
  | [] => ip
  | hop :: hops =>
    match parseAddr (trimSpace hop) with
    | none => ip
    | some a => if ¬trusted trustedProxies a.unmap then a.unmap else clientIPLoop a.unmap hops

/-- The fields of the joined header, from right to left. -/
def hopsOf (forwardedFor : List Bytes) : List Bytes :=
  (Bytes.split 44 (Bytes.join 44 forwardedFor)).reverse

/-- `clientIP` of a request with this `RemoteAddr` and these `X-Forwarded-For` headers. -/
def clientIP (remoteAddr : Bytes) (forwardedFor : List Bytes) : Addr :=
  match parseAddrPort remoteAddr with
  | none => .zero
  | some ap =>
    if ¬trusted trustedProxies ap.unmap then ap.unmap
    else clientIPLoop trustedProxies ap.unmap (hopsOf forwardedFor)

/-! ## What the headers can choose -/

/-- The peer of a request, if its address can be read. -/
def peerOf (remoteAddr : Bytes) : Addr := ((parseAddrPort remoteAddr).map Addr.unmap).getD .zero

/-- The address a hop names. -/
def hopAddr (hop : Bytes) : Option Addr := (parseAddr (trimSpace hop)).map Addr.unmap

/-- A hop that no trusted proxy stands behind. -/
def isClient (hop : Bytes) : Bool := (hopAddr hop).all fun ip => !trusted trustedProxies ip

/-- The hops up to and including the first one that no trusted proxy stands behind. -/
def decisive (hops : List Bytes) : List Bytes :=
  hops.takeWhile (!isClient trustedProxies ·) ++ (hops.find? (isClient trustedProxies)).toList

/-- The last address the server has seen at the end of these hops, its peer's with none. -/
def lastSeen (peer : Addr) (hops : List Bytes) : Addr := ((hops.filterMap hopAddr).getLast?).getD peer

variable {trustedProxies}

@[simp] theorem trusted_zero : trusted trustedProxies .zero = false := by
  rw [trusted, List.any_eq_false]
  rintro (_ | _) - <;> simp [Prefix.contains]

theorem lastSeen_cons {hop : Bytes} {ip : Addr} (h : hopAddr hop = some ip) (peer : Addr)
    (hops : List Bytes) : lastSeen peer (hop :: hops) = lastSeen ip hops := by
  simp only [lastSeen, List.filterMap_cons, h, List.getLast?_cons, Option.getD_some]

/-- The loop answers with the first client hop, and stays where it is when that one has no address. -/
theorem clientIPLoop_eq (ip : Addr) (hops : List Bytes) :
    clientIPLoop trustedProxies ip hops =
      (((hops.find? (isClient trustedProxies)).bind hopAddr).getD
        (lastSeen ip (hops.takeWhile (!isClient trustedProxies ·)))) := by
  induction hops generalizing ip with
  | nil => simp [clientIPLoop, lastSeen]
  | cons hop hops ih =>
    rw [clientIPLoop]
    cases parsed : parseAddr (trimSpace hop) with
    | none =>
      have named : hopAddr hop = none := by simp [hopAddr, parsed]
      have client : isClient trustedProxies hop = true := by simp [isClient, named]
      simp [client, named, lastSeen]
    | some a =>
      have named : hopAddr hop = some a.unmap := by simp [hopAddr, parsed]
      cases known : trusted trustedProxies a.unmap with
      | false =>
        have client : isClient trustedProxies hop = true := by simp [isClient, named, known]
        simp [client, named, known]
      | true =>
        have client : isClient trustedProxies hop = false := by simp [isClient, named, known]
        simp [client, known, ih, lastSeen_cons named]

theorem decisive_cons (hop : Bytes) (hops : List Bytes) :
    decisive trustedProxies (hop :: hops) =
      if isClient trustedProxies hop then [hop] else hop :: decisive trustedProxies hops := by
  cases client : isClient trustedProxies hop <;> simp [decisive, client]

/-- The loop reads no hop beyond the decisive ones. -/
theorem clientIPLoop_decisive (ip : Addr) (hops : List Bytes) :
    clientIPLoop trustedProxies ip (decisive trustedProxies hops) =
      clientIPLoop trustedProxies ip hops := by
  induction hops generalizing ip with
  | nil => rfl
  | cons hop hops ih =>
    rw [decisive_cons]
    cases client : isClient trustedProxies hop with
    | true =>
      rw [if_pos rfl, clientIPLoop_eq, clientIPLoop_eq]
      simp [client]
    | false =>
      rw [if_neg (by simp)]
      simp only [clientIPLoop, ih]

theorem clientIP_untrusted {remoteAddr : Bytes}
    (h : trusted trustedProxies (peerOf remoteAddr) = false) (forwardedFor : List Bytes) :
    clientIP trustedProxies remoteAddr forwardedFor = peerOf remoteAddr := by
  unfold clientIP peerOf at *
  cases parsed : parseAddrPort remoteAddr with
  | none => simp
  | some ap =>
    rw [parsed] at h
    simp_all

theorem clientIP_trusted {remoteAddr : Bytes}
    (h : trusted trustedProxies (peerOf remoteAddr) = true) (forwardedFor : List Bytes) :
    clientIP trustedProxies remoteAddr forwardedFor =
      clientIPLoop trustedProxies (peerOf remoteAddr) (hopsOf forwardedFor) := by
  unfold clientIP peerOf at *
  cases parsed : parseAddrPort remoteAddr with
  | none => simp [parsed] at h
  | some ap =>
    rw [parsed] at h
    simp_all

end ClientIP

/-- Behind an untrusted peer no header counts. Behind a trusted one the hops from the right up to
the first that no trusted proxy stands behind decide: its address, or, when it has none, the last one
seen before it. -/
theorem client_not_chosen (trustedProxies : List Prefix) (remoteAddr : Bytes) :
    (trusted trustedProxies (peerOf remoteAddr) = false →
      ∀ forwardedFor, clientIP trustedProxies remoteAddr forwardedFor = peerOf remoteAddr) ∧
    (trusted trustedProxies (peerOf remoteAddr) = true →
      (∀ forwardedFor forwardedFor',
        decisive trustedProxies (hopsOf forwardedFor) =
            decisive trustedProxies (hopsOf forwardedFor') →
          clientIP trustedProxies remoteAddr forwardedFor =
            clientIP trustedProxies remoteAddr forwardedFor') ∧
      ∀ forwardedFor,
        clientIP trustedProxies remoteAddr forwardedFor =
          (((hopsOf forwardedFor).find? (isClient trustedProxies)).bind hopAddr).getD
            (lastSeen (peerOf remoteAddr)
              ((hopsOf forwardedFor).takeWhile (!isClient trustedProxies ·)))) := by
  refine ⟨clientIP_untrusted, fun known => ⟨?_, ?_⟩⟩
  · intro forwardedFor forwardedFor' same
    rw [clientIP_trusted known, clientIP_trusted known, ← clientIPLoop_decisive, same,
      clientIPLoop_decisive]
  · intro forwardedFor
    rw [clientIP_trusted known, clientIPLoop_eq]

namespace Sample

def proxies : List Prefix := [.v4 0x7f000001 32, .v4 0x0a000000 8]

/-- Two proxies in a row; what the client put before its own address is not read, and neither is
where one header ends. -/
theorem spoofed_hop :
    clientIP proxies (utf8 "127.0.0.1:1234") [utf8 "6.6.6.6, 198.51.100.7, 10.0.0.2"] =
        .v4 0xc6336407 ∧
      clientIP proxies (utf8 "127.0.0.1:1234") [utf8 "6.6.6.6, 198.51.100.7, 10.0.0.2"] =
        clientIP proxies (utf8 "127.0.0.1:1234") [utf8 "7.7.7.7", utf8 "x, 198.51.100.7", utf8 " 10.0.0.2"] ∧
      clientIP proxies (utf8 "203.0.113.9:1234") [utf8 "1.2.3.4"] = .v4 0xcb007109 := by
  have known := (client_not_chosen proxies (utf8 "127.0.0.1:1234")).2 (by decide +kernel)
  have unknown := (client_not_chosen proxies (utf8 "203.0.113.9:1234")).1 (by decide +kernel)
  refine ⟨?_, known.1 _ _ (by decide +kernel), ?_⟩
  · rw [known.2]
    decide +kernel
  · rw [unknown]
    decide +kernel

end Sample

end Shyake.Go
