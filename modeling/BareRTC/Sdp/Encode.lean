import BareRTC.Sdp.Defs

/-!
# Encoding a session description (`re/src/sdp/msg.c`, `attr.c`)

A function that prints returns the text and an error code, `0` for success; the codes of all that is
printed are combined by a bitwise or. Printing itself does not fail, the handlers may.
-/

namespace BareRTC.Sdp

abbrev Out := Bytes × UInt32

def print (b : Bytes) : Out := (b, 0)

def Out.append (x y : Out) : Out := (x.1 ++ y.1, x.2 ||| y.2)

instance : Append Out := ⟨Out.append⟩

def printAll {α : Type} (f : α → Out) (l : List α) : Out := l.foldr (fun a x => f a ++ x) (print [])

def crlf : Bytes := [13, 10]

/-- `%u` -/
def printU (n : Nat) : Bytes := ascii (toString n)

/-- `%i` -/
def printI (n : Int32) : Bytes := ascii (toString n.toInt)

def strIsset : Option Bytes → Bool
  | none => false
  | some s => !s.isEmpty

/-- `IN IP%d %j` -/
def printAddr (net : Net) (sa : Sa) : Bytes :=
  ascii "IN IP" ++ (match sa.addr with | .inet _ => ascii "4" | .inet6 _ => ascii "6") ++ ascii " " ++ net.ntop sa.addr

def attrPrint (a : Attr) : Out :=
  match a.val with
  | some val => print (ascii "a=" ++ a.name ++ ascii ":" ++ val ++ crlf)
  | none => print (ascii "a=" ++ a.name ++ crlf)

def bandwidthPrint (bwv : Bwv) : Out :=
  printAll (fun b => if bwv b < 0 then print []
    else print (ascii "b=" ++ b.name ++ ascii ":" ++ printI (bwv b) ++ crlf)) bandwidths

def formatPrint (offer : Bool) (fmt : Format) : Out :=
  if !fmt.sup || !strIsset fmt.name then print []
  else
    print (ascii "a=rtpmap:" ++ fmt.id ++ ascii " " ++ fmt.name.getD [] ++ ascii "/" ++
      printU fmt.srate.toNat ++ (if fmt.ch > 1 then ascii "/" ++ printU fmt.ch.toNat else []) ++ crlf) ++
    (if strIsset fmt.params then
      print (ascii "a=fmtp:" ++ fmt.id ++ ascii " " ++ fmt.params.getD [] ++ crlf) else print []) ++
    (match fmt.ench with
      | some ench => ench fmt.toFormatData offer
      | none => print [])

def rtcpPrint (net : Net) (sa : Sa) : Out :=
  if sa.addrIsset && sa.portIsset then
    print (ascii "a=rtcp:" ++ printU sa.port.toNat ++ ascii " " ++ printAddr net sa ++ crlf)
  else if sa.portIsset then print (ascii "a=rtcp:" ++ printU sa.port.toNat ++ crlf)
  else print []

/-- Whether the media line is refused, and the protocol it is printed with. -/
def Media.refused (m : Media) (offer : Bool) : Bool × Bytes :=
  match m.uproto, offer with
  | some uproto, false => (true, uproto)
  | _, _ =>
    if m.disabled || !m.lfmtl.any (·.sup) || (!offer && m.raddr.port == 0) then (true, m.proto)
    else (false, m.proto)

/-- The port that it works out is replaced by 9. -/
def mediaEncode (net : Net) (offer : Bool) (m : Media) (mid : Nat) : Out :=
  let (disabled, proto) := m.refused offer
  let mline := print (ascii "m=" ++ m.name ++ ascii " " ++ printU 9 ++ ascii " " ++ proto)
  if disabled then mline ++ print (ascii " 0" ++ crlf)
  else
    mline ++
    printAll (fun fmt => if fmt.sup then print (ascii " " ++ fmt.id) else print []) m.lfmtl ++
    print crlf ++
    (if m.laddr.addrIsset then print (ascii "c=" ++ printAddr net m.laddr ++ crlf) else print []) ++
    bandwidthPrint m.lbwv ++
    printAll (formatPrint offer) m.lfmtl ++
    rtcpPrint net m.laddrRtcp ++
    print (ascii "a=" ++ (if offer then m.ldir else m.ldir.and m.rdir).name ++ crlf) ++
    print (ascii "a=mid:" ++ printU mid ++ crlf) ++
    printAll attrPrint m.lattrl ++
    (match m.ench with
      | some ench => ench offer
      | none => print [])

def sessionPrint (net : Net) (s : Session) : Out :=
  print (ascii "v=0" ++ crlf) ++
  print (ascii "o=- " ++ printU s.id.toNat ++ ascii " " ++ printU s.ver.toNat ++ ascii " " ++
    printAddr net s.laddr ++ crlf) ++
  print (ascii "s=-" ++ crlf) ++
  print (ascii "c=" ++ printAddr net s.laddr ++ crlf) ++
  bandwidthPrint s.lbwv ++
  print (ascii "t=0 0" ++ crlf) ++
  print (ascii "a=group:BUNDLE 0 1" ++ crlf) ++
  print (ascii "a=msid-semantic: WMS" ++ crlf)

def mediaPrint (net : Net) (offer : Bool) (lattrl : List Attr) (mid : Nat) : List Media → Out
  | [] => print []
  | m :: ms =>
    mediaEncode net offer m mid ++ printAll attrPrint lattrl ++ mediaPrint net offer lattrl (mid + 1) ms

/-- The local media lines that are not disabled become part of the exchange with an offer. -/
def Session.offered (s : Session) (offer : Bool) : Session :=
  if offer then
    { s with medial := s.medial ++ s.lmedial.filter (!·.disabled), lmedial := s.lmedial.filter (·.disabled) }
  else s

def sdpEncode (net : Net) (offer : Bool) : EStateM UInt32 Session Bytes := fun s =>
  let s' := { s.offered offer with ver := s.ver + 1 }
  let out := sessionPrint net s ++ mediaPrint net offer s'.lattrl 0 s'.medial
  if out.2 = 0 then .ok out.1 s' else .error out.2 s'

end BareRTC.Sdp
