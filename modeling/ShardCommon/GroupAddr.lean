import ShardCommon.ShardEngine

/-!
# Multicast addresses of groups

A group is addressed by the scope prefix, the group id and its index, at the ends of an IPv6 address
(`shard/shard.go`, `shard/control.go`). The prefix follows from the addressing mode and the scope
(`shard/mode.go`).
-/

namespace ShardCommon.Shard

open ShardCommon.Frame

/-! ## Addresses -/

-- bytes 2 to 11 stay zero
def groupAddr (scopePrefix groupID idx : UInt16) : FixedBytes 16 :=
  .copy 16 (putUint16 scopePrefix ++ List.replicate 10 0 ++ putUint16 groupID ++ putUint16 idx)

structure UDPAddr where
  ip : FixedBytes 16
  port : Int
  deriving DecidableEq

/-- Only the low 16 bits of the index are used. -/
def Engine.addr (e : Engine) (groupIndex : UInt32) (port : Int) : UDPAddr :=
  ⟨groupAddr e.mcPrefix e.groupID groupIndex.toUInt16, port⟩

/-! ## Prefixes -/

/-- `other` stands for the values of the type that have no name. -/
inductive SourceMode where
  | asm
  | ssm
  | other (value : UInt8)
  deriving DecidableEq

def SourceMode.string : SourceMode → String
  | asm => "asm"
  | ssm => "ssm"
  | other value => s!"sourcemode({value})"

/-- `other` stands for the values of the type that have no name. -/
inductive Scope where
  | site
  | global
  | other (value : UInt8)
  deriving DecidableEq

def Scope.string : Scope → String
  | site => "site"
  | global => "global"
  | other value => s!"scope({value})"

inductive PrefixError where
  | asmAtGlobalScope
  | unsupported (mode : SourceMode) (scope : Scope)
  deriving DecidableEq

def PrefixError.text : PrefixError → String
  | asmAtGlobalScope =>
    "shard: ASM at global scope is deprecated by RFC 8815; use SSM for inter-domain delivery"
  | unsupported mode scope =>
    "shard: unsupported (mode=" ++ mode.string ++ ", scope=" ++ scope.string ++ ") combination"

def scopePrefix : SourceMode → Scope → Except PrefixError UInt16
  | .asm, .site => .ok 0xFF05
  | .ssm, .site => .ok 0xFF35
  | .ssm, .global => .ok 0xFF3E
  | .asm, .global => .error .asmAtGlobalScope
  | mode, scope => .error (.unsupported mode scope)

end ShardCommon.Shard
