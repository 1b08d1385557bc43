import SecureComm.Crypto.Aead
import SecureComm.Envelope
import SecureComm.Lib.Table

/-!
# Groups

The group manager keeps a leaf secret for each member of a group and hashes
them to the secret of the epoch, from which the one key of the epoch is
derived. Every change of members starts a new epoch. Random bytes and the clock
are arguments.
-/

namespace SecureComm

namespace MLSManager

structure Group where
  id : Bytes
  epoch : UInt64 := 0
  leafSecrets : List Bytes := []
  memberIndex : Table Bytes Nat := ∅
  epochSecret : Bytes := []

end MLSManager

structure MLSManager where
  groups : Table Bytes MLSManager.Group := ∅
  aead : AEAD := {}

namespace MLSManager

variable (S : Sodium)

def deriveEpochSecret (g : Group) : Bytes :=
  if g.leafSecrets.flatten = [] then zeros 32 else (S.genericHash [] g.leafSecrets.flatten).val

def deriveEpochKey (epochSecret groupId : Bytes) (epoch : UInt64) : BytesN 32 :=
  S.genericHash epochSecret (groupId ++ BigEndian.be64 epoch)

/-- The next epoch of a group whose members have changed. -/
def Group.advance (g : Group) : Group :=
  { g with epoch := g.epoch + 1, epochSecret := deriveEpochSecret S g }

/-- The name is not read. -/
def createGroup (m : MLSManager) (gid : BytesN 16) : MLSManager × Bytes :=
  let g : Group := { id := gid.val, epoch := 1 }
  let g := { g with epochSecret := deriveEpochSecret S g }
  ({ m with groups := Table.emplace m.groups gid.val g }, gid.val)

/-- A member that is there keeps its index, and the group gets a leaf all the same. -/
def addMember (m : MLSManager) (groupId memberId : Bytes) (leaf : BytesN 32) :
    Except String MLSManager :=
  match m.groups.lookup groupId with
  | none => .error "group not found"
  | some g =>
    let g := { g with
      leafSecrets := g.leafSecrets ++ [leaf.val]
      memberIndex := Table.emplace g.memberIndex memberId g.leafSecrets.length }
    .ok { m with groups := m.groups.insert groupId (g.advance S) }

def removeMember (m : MLSManager) (groupId memberId : Bytes) : Except String MLSManager :=
  match m.groups.lookup groupId with
  | none => .error "group not found"
  | some g =>
    match g.memberIndex.lookup memberId with
    | none => .ok m
    | some idx =>
      let g := { g with
        memberIndex := Table.mapValues (g.memberIndex.erase memberId)
          fun i => if i > idx then i - 1 else i
        leafSecrets := g.leafSecrets.eraseIdx idx }
      .ok { m with groups := m.groups.insert groupId (g.advance S) }

/-- The clock is read twice; the low half of the first reading is the index. -/
def encryptGroupMessage (m : MLSManager) (groupId senderId plaintext : Bytes) (nonce : BytesN 12)
    (now now' : UInt64) : Except String (MLSManager × Envelope) :=
  match m.groups.lookup groupId with
  | none => .error "group not found"
  | some g => do
    let aead ← AEAD.setKey (deriveEpochKey S g.epochSecret g.id g.epoch).val
    let aad := g.id ++ BigEndian.be64 g.epoch
    let ct ← aead.encrypt S plaintext aad nonce
    return ({ m with aead }, {
      sessionId := g.id, messageIndex := now.toUInt32, timestamp := now', senderDeviceId := senderId
      associatedData := aad, ciphertext := ct })

/-- The member id is not read. -/
def decryptGroupMessage (m : MLSManager) (groupId : Bytes) (env : Envelope) :
    MLSManager × Option Bytes :=
  match m.groups.lookup groupId with
  | none => (m, none)
  | some g =>
    if env.sessionId ≠ g.id then (m, none)
    else
      let aead : AEAD := ⟨(deriveEpochKey S g.epochSecret g.id g.epoch).val⟩
      ({ m with aead }, aead.decrypt S env.ciphertext env.associatedData)

def getGroupEpoch (m : MLSManager) (groupId : Bytes) : UInt64 :=
  match m.groups.lookup groupId with
  | some g => g.epoch
  | none => 0

variable {S}

theorem encryptGroupMessage_eq {m : MLSManager} {groupId : Bytes} {g : Group}
    (hg : m.groups.lookup groupId = some g) (senderId pt : Bytes) (nonce : BytesN 12)
    (now now' : UInt64) : m.encryptGroupMessage S groupId senderId pt nonce now now' =
      .ok ({ m with aead := ⟨(deriveEpochKey S g.epochSecret g.id g.epoch).val⟩ }, {
        sessionId := g.id, messageIndex := now.toUInt32, timestamp := now'
        senderDeviceId := senderId, associatedData := g.id ++ BigEndian.be64 g.epoch
        ciphertext := nonce.val ++ S.aeadEncrypt (deriveEpochKey S g.epochSecret g.id g.epoch).val
          nonce.val (g.id ++ BigEndian.be64 g.epoch) pt }) := by
  have hk := (deriveEpochKey S g.epochSecret g.id g.epoch).property
  simp only [encryptGroupMessage, hg, AEAD.setKey_ok hk, AEAD.encrypt_ok S hk, bind, Except.bind,
    pure, Except.pure]

theorem decryptGroupMessage_groups {m : MLSManager} (groupId : Bytes) (env : Envelope) :
    (m.decryptGroupMessage S groupId env).1.groups = m.groups := by
  unfold decryptGroupMessage
  split
  · rfl
  · split <;> rfl

end MLSManager

end SecureComm
