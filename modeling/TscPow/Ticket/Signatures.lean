import TscPow.Ticket.Incremental

/-!
# The signatures of the lucky tickets

A block above `TICKET_VALVE` carries five signatures on its hash. `ProcessNewBlock` draws the lucky tickets for the active tip with the block's seed and checks `sig1` to `sig5` against their addresses, one after another.
-/

namespace TscPow

/-- `sig1` to `sig5`, as `CheckSigwithAddress` selects them. -/
def BlockHeader.sig (header : BlockHeader) : Nat → Option (List Byte)
  | 1 => some header.sig1
  | 2 => some header.sig2
  | 3 => some header.sig3
  | 4 => some header.sig4
  | 5 => some header.sig5
  | _ => none

/-- Public-key recovery: the key that a base64 signature on the message of a block hash recovers to, if there is one. -/
abbrev Recover := Uint256 → List Byte → Option Address

def checkSigwithAddress (hashing : Hashing) (recover : Recover) (header : BlockHeader)
    (address : Destination) (index : Nat) : Bool :=
  match header.sig index, address with
  | some strSign, .keyID keyID => recover (hashing.blockHash header) strSign == some keyID
  | _, _ => false

/-- The tickets whose addresses `ProcessNewBlock` holds `sig1`, `sig2` and so on against. -/
def signingTickets (env : TicketEnv) (s : TipState) (block : Block) : Except Fault (List Ticket) :=
  if s.height ≥ TICKET_VALVE then
    luckyTickets env.hashing s.chain s.pool.ticket_pool s.height block.seed
  else .ok []

/-- The signature loop of `ProcessNewBlock`; the first failure ends it. -/
def checkLuckySignatures (env : TicketEnv) (recover : Recover) (s : TipState) (block : Block) :
    Except Fault Bool := do
  let tickets ← signingTickets env s block
  return (tickets.zipIdx 1).all fun (ticket, i) =>
    checkSigwithAddress env.hashing recover block.toBlockHeader ticket.ticketAddress i

end TscPow
