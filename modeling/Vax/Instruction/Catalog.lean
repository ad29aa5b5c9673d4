import Vax.Instruction.Kind
import Vax.Instruction.Action
/-!
# The instruction catalog

Opcodes are one byte long, except that three escape bytes lead into a second
byte; the code of such an opcode carries the escape byte in its high byte.
The catalog lists every code with its mnemonic, the kinds of its operands, and
what the machine does for it.
-/

namespace Vax

structure Descriptor where
  code : UInt16
  mnemonic : String
  operands : List OperandKind
  action : Action
  deriving DecidableEq, Repr

/-- The number of opcode bytes. -/
def Descriptor.codeLength (d : Descriptor) : Nat :=
  if d.code > 0xff then 2 else 1

/-- Whether a byte leads into a two-byte opcode. -/
def isEscape (byte : UInt8) : Bool :=
  byte == 0xfd || byte == 0xfe || byte == 0xff

namespace Catalog

private def executed (code : UInt16) (mnemonic : String) (operands : List OperandKind)
    (action : Action) : Descriptor :=
  ⟨code, mnemonic, operands, action⟩

private def listed (code : UInt16) (mnemonic : String) (operands : List OperandKind) :
    Descriptor :=
  ⟨code, mnemonic, operands, .unimplemented⟩

/-- Every instruction, in the order of its code. -/
def descriptors : List Descriptor := [
  executed 0x00 "halt" [] .privileged,
  executed 0x01 "nop" [] .nothing,
  listed 0x02 "rei" [],
  listed 0x03 "bpt" [],
  executed 0x04 "ret" [] .returnFromCall,
  executed 0x05 "rsb" [] .returnFromSubroutine,
  listed 0x06 "ldpctx" [],
  listed 0x07 "svpctx" [],
  listed 0x08 "cvtps" [.word, .byte, .word, .byte],
  listed 0x09 "cvtsp" [.word, .byte, .word, .byte],
  listed 0x0a "index" [.long, .long, .long, .long, .long, .long],
  listed 0x0b "crc" [.byte, .long, .word, .byte],
  listed 0x0c "prober" [.byte, .word, .byte],
  listed 0x0d "probew" [.byte, .word, .byte],
  listed 0x0e "insque" [.byte, .byte],
  listed 0x0f "remque" [.byte, .long],
  executed 0x10 "bsbb" [.branchByte] .branchToSubroutine,
  executed 0x11 "brb" [.branchByte] (.branch .always),
  executed 0x12 "bneq" [.branchByte] (.branch .notEqual),
  executed 0x13 "beql" [.branchByte] (.branch .equal),
  executed 0x14 "bgtr" [.branchByte] (.branch .greater),
  executed 0x15 "bleq" [.branchByte] (.branch .lessOrEqual),
  executed 0x16 "jsb" [.byte] .jumpToSubroutine,
  executed 0x17 "jmp" [.byte] .jump,
  executed 0x18 "bgeq" [.branchByte] (.branch .greaterOrEqual),
  executed 0x19 "blss" [.branchByte] (.branch .less),
  executed 0x1a "bgtru" [.branchByte] (.branch .greaterUnsigned),
  executed 0x1b "blequ" [.branchByte] (.branch .lessOrEqualUnsigned),
  executed 0x1c "bvc" [.branchByte] (.branch .noOverflow),
  executed 0x1d "bvs" [.branchByte] (.branch .overflow),
  executed 0x1e "bcc" [.branchByte] (.branch .greaterOrEqualUnsigned),
  executed 0x1f "blssu" [.branchByte] (.branch .lessUnsigned),
  listed 0x20 "addp4" [.word, .byte, .word, .byte],
  listed 0x21 "addp6" [.word, .byte, .word, .byte, .word, .byte],
  listed 0x22 "subp4" [.word, .byte, .word, .byte],
  listed 0x23 "subp6" [.word, .byte, .word, .byte, .word, .byte],
  listed 0x24 "cvtpt" [.word, .byte, .byte, .word, .byte],
  listed 0x25 "mulp" [.word, .byte, .word, .byte, .word, .byte],
  listed 0x26 "cvttp" [.word, .byte, .byte, .word, .byte],
  listed 0x27 "divp" [.word, .byte, .word, .byte, .word, .byte],
  executed 0x28 "movc3" [.word, .byte, .byte] .copyString,
  listed 0x29 "cmpc3" [.word, .byte, .byte],
  listed 0x2a "scanc" [.word, .byte, .byte, .byte],
  listed 0x2b "spanc" [.word, .byte, .byte, .byte],
  listed 0x2c "movc5" [.word, .byte, .byte, .word, .byte],
  listed 0x2d "cmpc5" [.word, .byte, .byte, .word, .byte],
  listed 0x2e "movtc" [.word, .byte, .byte, .byte, .word, .byte],
  listed 0x2f "movtuc" [.word, .byte, .byte, .byte, .word, .byte],
  executed 0x30 "bsbw" [.branchWord] .branchToSubroutine,
  executed 0x31 "brw" [.branchWord] (.branch .always),
  executed 0x32 "cvtwl" [.word, .long] .convert,
  executed 0x33 "cvtwb" [.word, .byte] .convert,
  listed 0x34 "movp" [.word, .byte, .byte],
  listed 0x35 "cmpp3" [.word, .byte, .byte],
  listed 0x36 "cvtpl" [.word, .byte, .long],
  listed 0x37 "cmpp4" [.word, .byte, .word, .byte],
  executed 0x38 "editpc" [.word, .byte, .byte, .byte] .editPacked,
  listed 0x39 "matchc" [.word, .byte, .word, .byte],
  executed 0x3a "locc" [.byte, .word, .byte] (.scan true),
  executed 0x3b "skpc" [.byte, .word, .byte] (.scan false),
  executed 0x3c "movzwl" [.word, .long] .zeroExtend,
  executed 0x3d "acbw" [.word, .word, .word, .branchWord] .addCompareBranch,
  executed 0x3e "movaw" [.word, .long] .moveAddress,
  executed 0x3f "pushaw" [.word] .pushAddress,
  listed 0x40 "addf2" [.fFloat, .fFloat],
  listed 0x41 "addf3" [.fFloat, .fFloat, .fFloat],
  listed 0x42 "subf2" [.fFloat, .fFloat],
  listed 0x43 "subf3" [.fFloat, .fFloat, .fFloat],
  listed 0x44 "mulf2" [.fFloat, .fFloat],
  listed 0x45 "mulf3" [.fFloat, .fFloat, .fFloat],
  listed 0x46 "divf2" [.fFloat, .fFloat],
  listed 0x47 "divf3" [.fFloat, .fFloat, .fFloat],
  listed 0x48 "cvtfb" [.fFloat, .byte],
  listed 0x49 "cvtfw" [.fFloat, .word],
  listed 0x4a "cvtfl" [.fFloat, .long],
  listed 0x4b "cvtrfl" [.fFloat, .long],
  listed 0x4c "cvtbf" [.byte, .fFloat],
  listed 0x4d "cvtwf" [.word, .fFloat],
  listed 0x4e "cvtlf" [.long, .fFloat],
  listed 0x4f "acbf" [.fFloat, .fFloat, .fFloat, .branchWord],
  listed 0x50 "movf" [.fFloat, .fFloat],
  listed 0x51 "cmpf" [.fFloat, .fFloat],
  listed 0x52 "mnegf" [.fFloat, .fFloat],
  listed 0x53 "tstf" [.fFloat],
  listed 0x54 "emodf" [.fFloat, .byte, .fFloat, .long, .fFloat],
  listed 0x55 "polyf" [.fFloat, .word, .byte],
  listed 0x56 "cvtfd" [.fFloat, .dFloat],
  listed 0x58 "adawi" [.word, .word],
  listed 0x5c "insqhi" [.byte, .quad],
  listed 0x5d "insqti" [.byte, .quad],
  listed 0x5e "remqhi" [.quad, .long],
  listed 0x5f "remqti" [.quad, .long],
  listed 0x60 "addd2" [.dFloat, .dFloat],
  listed 0x61 "addd3" [.dFloat, .dFloat, .dFloat],
  listed 0x62 "subd2" [.dFloat, .dFloat],
  listed 0x63 "subd3" [.dFloat, .dFloat, .dFloat],
  listed 0x64 "muld2" [.dFloat, .dFloat],
  listed 0x65 "muld3" [.dFloat, .dFloat, .dFloat],
  listed 0x66 "divd2" [.dFloat, .dFloat],
  listed 0x67 "divd3" [.dFloat, .dFloat, .dFloat],
  listed 0x68 "cvtdb" [.dFloat, .byte],
  listed 0x69 "cvtdw" [.dFloat, .word],
  listed 0x6a "cvtdl" [.dFloat, .long],
  listed 0x6b "cvtrdl" [.dFloat, .long],
  listed 0x6c "cvtbd" [.byte, .dFloat],
  listed 0x6d "cvtwd" [.word, .dFloat],
  listed 0x6e "cvtld" [.long, .dFloat],
  listed 0x6f "acbd" [.dFloat, .dFloat, .dFloat, .branchWord],
  listed 0x70 "movd" [.dFloat, .dFloat],
  listed 0x71 "cmpd" [.dFloat, .dFloat],
  listed 0x72 "mnegd" [.dFloat, .dFloat],
  listed 0x73 "tstd" [.dFloat],
  listed 0x74 "emodd" [.dFloat, .byte, .dFloat, .long, .dFloat],
  listed 0x75 "polyd" [.dFloat, .word, .byte],
  listed 0x76 "cvtdf" [.dFloat, .fFloat],
  executed 0x78 "ashl" [.byte, .long, .long] .shift,
  listed 0x79 "ashq" [.byte, .quad, .quad],
  listed 0x7a "emul" [.long, .long, .long, .quad],
  listed 0x7b "ediv" [.long, .quad, .long, .long],
  executed 0x7c "clrq" [.quad] .clear,
  executed 0x7d "movq" [.quad, .quad] .move,
  executed 0x7e "movaq" [.quad, .long] .moveAddress,
  executed 0x7f "pushaq" [.quad] .pushAddress,
  executed 0x80 "addb2" [.byte, .byte] (.arithmetic .add),
  executed 0x81 "addb3" [.byte, .byte, .byte] (.arithmetic .add),
  executed 0x82 "subb2" [.byte, .byte] (.arithmetic .subtract),
  executed 0x83 "subb3" [.byte, .byte, .byte] (.arithmetic .subtract),
  executed 0x84 "mulb2" [.byte, .byte] (.arithmetic .multiply),
  executed 0x85 "mulb3" [.byte, .byte, .byte] (.arithmetic .multiply),
  executed 0x86 "divb2" [.byte, .byte] (.arithmetic .divide),
  executed 0x87 "divb3" [.byte, .byte, .byte] (.arithmetic .divide),
  executed 0x88 "bisb2" [.byte, .byte] (.arithmetic .setBits),
  executed 0x89 "bisb3" [.byte, .byte, .byte] (.arithmetic .setBits),
  executed 0x8a "bicb2" [.byte, .byte] (.arithmetic .clearBits),
  executed 0x8b "bicb3" [.byte, .byte, .byte] (.arithmetic .clearBits),
  executed 0x8c "xorb2" [.byte, .byte] (.arithmetic .exclusiveOr),
  executed 0x8d "xorb3" [.byte, .byte, .byte] (.arithmetic .exclusiveOr),
  executed 0x8e "mnegb" [.byte, .byte] .negate,
  executed 0x8f "caseb" [.byte, .byte, .byte] .select,
  executed 0x90 "movb" [.byte, .byte] .move,
  executed 0x91 "cmpb" [.byte, .byte] .compare,
  executed 0x92 "mcomb" [.byte, .byte] .complement,
  executed 0x93 "bitb" [.byte, .byte] .bitTest,
  executed 0x94 "clrb" [.byte] .clear,
  executed 0x95 "tstb" [.byte] .test,
  executed 0x96 "incb" [.byte] .increment,
  executed 0x97 "decb" [.byte] .decrement,
  executed 0x98 "cvtbl" [.byte, .long] .convert,
  executed 0x99 "cvtbw" [.byte, .word] .convert,
  executed 0x9a "movzbl" [.byte, .long] .zeroExtend,
  executed 0x9b "movzbw" [.byte, .word] .zeroExtend,
  listed 0x9c "rotl" [.byte, .long, .long],
  executed 0x9d "acbb" [.byte, .byte, .byte, .branchWord] .addCompareBranch,
  executed 0x9e "movab" [.byte, .long] .moveAddress,
  executed 0x9f "pushab" [.byte] .pushAddress,
  executed 0xa0 "addw2" [.word, .word] (.arithmetic .add),
  executed 0xa1 "addw3" [.word, .word, .word] (.arithmetic .add),
  executed 0xa2 "subw2" [.word, .word] (.arithmetic .subtract),
  executed 0xa3 "subw3" [.word, .word, .word] (.arithmetic .subtract),
  executed 0xa4 "mulw2" [.word, .word] (.arithmetic .multiply),
  executed 0xa5 "mulw3" [.word, .word, .word] (.arithmetic .multiply),
  executed 0xa6 "divw2" [.word, .word] (.arithmetic .divide),
  executed 0xa7 "divw3" [.word, .word, .word] (.arithmetic .divide),
  executed 0xa8 "bisw2" [.word, .word] (.arithmetic .setBits),
  executed 0xa9 "bisw3" [.word, .word, .word] (.arithmetic .setBits),
  executed 0xaa "bicw2" [.word, .word] (.arithmetic .clearBits),
  executed 0xab "bicw3" [.word, .word, .word] (.arithmetic .clearBits),
  executed 0xac "xorw2" [.word, .word] (.arithmetic .exclusiveOr),
  executed 0xad "xorw3" [.word, .word, .word] (.arithmetic .exclusiveOr),
  executed 0xae "mnegw" [.word, .word] .negate,
  executed 0xaf "casew" [.word, .word, .word] .select,
  executed 0xb0 "movw" [.word, .word] .move,
  executed 0xb1 "cmpw" [.word, .word] .compare,
  executed 0xb2 "mcomw" [.word, .word] .complement,
  executed 0xb3 "bitw" [.word, .word] .bitTest,
  executed 0xb4 "clrw" [.word] .clear,
  executed 0xb5 "tstw" [.word] .test,
  executed 0xb6 "incw" [.word] .increment,
  executed 0xb7 "decw" [.word] .decrement,
  listed 0xb8 "bispsw" [.word],
  listed 0xb9 "bicpsw" [.word],
  listed 0xba "popr" [.word],
  listed 0xbb "pushr" [.word],
  executed 0xbc "chmk" [.word] .systemCall,
  listed 0xbd "chme" [.word],
  listed 0xbe "chms" [.word],
  listed 0xbf "chmu" [.word],
  executed 0xc0 "addl2" [.long, .long] (.arithmetic .add),
  executed 0xc1 "addl3" [.long, .long, .long] (.arithmetic .add),
  executed 0xc2 "subl2" [.long, .long] (.arithmetic .subtract),
  executed 0xc3 "subl3" [.long, .long, .long] (.arithmetic .subtract),
  executed 0xc4 "mull2" [.long, .long] (.arithmetic .multiply),
  executed 0xc5 "mull3" [.long, .long, .long] (.arithmetic .multiply),
  executed 0xc6 "divl2" [.long, .long] (.arithmetic .divide),
  executed 0xc7 "divl3" [.long, .long, .long] (.arithmetic .divide),
  executed 0xc8 "bisl2" [.long, .long] (.arithmetic .setBits),
  executed 0xc9 "bisl3" [.long, .long, .long] (.arithmetic .setBits),
  executed 0xca "bicl2" [.long, .long] (.arithmetic .clearBits),
  executed 0xcb "bicl3" [.long, .long, .long] (.arithmetic .clearBits),
  executed 0xcc "xorl2" [.long, .long] (.arithmetic .exclusiveOr),
  executed 0xcd "xorl3" [.long, .long, .long] (.arithmetic .exclusiveOr),
  executed 0xce "mnegl" [.long, .long] .negate,
  executed 0xcf "casel" [.long, .long, .long] .select,
  executed 0xd0 "movl" [.long, .long] .move,
  executed 0xd1 "cmpl" [.long, .long] .compare,
  executed 0xd2 "mcoml" [.long, .long] .complement,
  executed 0xd3 "bitl" [.long, .long] .bitTest,
  executed 0xd4 "clrl" [.long] .clear,
  executed 0xd5 "tstl" [.long] .test,
  executed 0xd6 "incl" [.long] .increment,
  executed 0xd7 "decl" [.long] .decrement,
  listed 0xd8 "adwc" [.long, .long],
  listed 0xd9 "sbwc" [.long, .long],
  listed 0xda "mtpr" [.long, .long],
  listed 0xdb "mfpr" [.long, .long],
  listed 0xdc "movpsl" [.long],
  executed 0xdd "pushl" [.long] .pushLong,
  executed 0xde "moval" [.long, .long] .moveAddress,
  executed 0xdf "pushal" [.long] .pushAddress,
  executed 0xe0 "bbs" [.long, .byte, .branchByte] (.branchOnBit true none),
  executed 0xe1 "bbc" [.long, .byte, .branchByte] (.branchOnBit false none),
  executed 0xe2 "bbss" [.long, .byte, .branchByte] (.branchOnBit true (some true)),
  executed 0xe3 "bbcs" [.long, .byte, .branchByte] (.branchOnBit false (some true)),
  executed 0xe4 "bbsc" [.long, .byte, .branchByte] (.branchOnBit true (some false)),
  executed 0xe5 "bbcc" [.long, .byte, .branchByte] (.branchOnBit false (some false)),
  executed 0xe6 "bbssi" [.long, .byte, .branchByte] (.branchOnBit true (some true)),
  executed 0xe7 "bbcci" [.long, .byte, .branchByte] (.branchOnBit false (some false)),
  executed 0xe8 "blbs" [.long, .branchByte] (.branchOnLowBit true),
  executed 0xe9 "blbc" [.long, .branchByte] (.branchOnLowBit false),
  listed 0xea "ffs" [.long, .byte, .byte, .long],
  listed 0xeb "ffc" [.long, .byte, .byte, .long],
  listed 0xec "cmpv" [.long, .byte, .byte, .long],
  listed 0xed "cmpzv" [.long, .byte, .byte, .long],
  executed 0xee "extv" [.long, .byte, .byte, .long] (.extractField true),
  executed 0xef "extzv" [.long, .byte, .byte, .long] (.extractField false),
  listed 0xf0 "insv" [.long, .long, .byte, .byte],
  executed 0xf1 "acbl" [.long, .long, .long, .branchWord] .addCompareBranch,
  executed 0xf2 "aoblss" [.long, .long, .branchByte] (.addOneBranch false),
  executed 0xf3 "aobleq" [.long, .long, .branchByte] (.addOneBranch true),
  executed 0xf4 "sobgeq" [.long, .branchByte] (.subtractOneBranch true),
  executed 0xf5 "sobgtr" [.long, .branchByte] (.subtractOneBranch false),
  executed 0xf6 "cvtlb" [.long, .byte] .convert,
  executed 0xf7 "cvtlw" [.long, .word] .convert,
  listed 0xf8 "ashp" [.byte, .word, .byte, .byte, .word, .byte],
  executed 0xf9 "cvtlp" [.long, .word, .byte] .longToPacked,
  listed 0xfa "callg" [.byte, .byte],
  executed 0xfb "calls" [.long, .byte] .call,
  listed 0xfc "xfc" [],
  listed 0xfd32 "cvtdh" [.dFloat, .hFloat],
  listed 0xfd33 "cvtgf" [.gFloat, .fFloat],
  listed 0xfd40 "addg2" [.gFloat, .gFloat],
  listed 0xfd41 "addg3" [.gFloat, .gFloat, .gFloat],
  listed 0xfd42 "subg2" [.gFloat, .gFloat],
  listed 0xfd43 "subg3" [.gFloat, .gFloat, .gFloat],
  listed 0xfd44 "mulg2" [.gFloat, .gFloat],
  listed 0xfd45 "mulg3" [.gFloat, .gFloat, .gFloat],
  listed 0xfd46 "divg2" [.gFloat, .gFloat],
  listed 0xfd47 "divg3" [.gFloat, .gFloat, .gFloat],
  listed 0xfd48 "cvtgb" [.gFloat, .byte],
  listed 0xfd49 "cvtgw" [.gFloat, .word],
  listed 0xfd4a "cvtgl" [.gFloat, .long],
  listed 0xfd4b "cvtrgl" [.gFloat, .long],
  listed 0xfd4c "cvtbg" [.byte, .gFloat],
  listed 0xfd4d "cvtwg" [.word, .gFloat],
  listed 0xfd4e "cvtlg" [.long, .gFloat],
  listed 0xfd4f "acbg" [.gFloat, .gFloat, .gFloat, .branchWord],
  listed 0xfd50 "movg" [.gFloat, .gFloat],
  listed 0xfd51 "cmpg" [.gFloat, .gFloat],
  listed 0xfd52 "mnegg" [.gFloat, .gFloat],
  listed 0xfd53 "tstg" [.gFloat],
  listed 0xfd54 "emodg" [.gFloat, .word, .gFloat, .long, .gFloat],
  listed 0xfd55 "polyg" [.gFloat, .word, .byte],
  listed 0xfd56 "cvtgh" [.gFloat, .hFloat],
  listed 0xfd60 "addh2" [.hFloat, .hFloat],
  listed 0xfd61 "addh3" [.hFloat, .hFloat, .hFloat],
  listed 0xfd62 "subh2" [.hFloat, .hFloat],
  listed 0xfd63 "subh3" [.hFloat, .hFloat, .hFloat],
  listed 0xfd64 "mulh2" [.hFloat, .hFloat],
  listed 0xfd65 "mulh3" [.hFloat, .hFloat, .hFloat],
  listed 0xfd66 "divh2" [.hFloat, .hFloat],
  listed 0xfd67 "divh3" [.hFloat, .hFloat, .hFloat],
  listed 0xfd68 "cvthb" [.hFloat, .byte],
  listed 0xfd69 "cvthw" [.hFloat, .word],
  listed 0xfd6a "cvthl" [.hFloat, .long],
  listed 0xfd6b "cvtrhl" [.hFloat, .long],
  listed 0xfd6c "cvtbh" [.byte, .hFloat],
  listed 0xfd6d "cvtwh" [.word, .hFloat],
  listed 0xfd6e "cvtlh" [.long, .hFloat],
  listed 0xfd6f "acbh" [.hFloat, .hFloat, .hFloat, .branchWord],
  listed 0xfd70 "movh" [.hFloat, .hFloat],
  listed 0xfd71 "cmph" [.hFloat, .hFloat],
  listed 0xfd72 "mnegh" [.hFloat, .hFloat],
  listed 0xfd73 "tsth" [.hFloat],
  listed 0xfd74 "emodh" [.hFloat, .word, .hFloat, .long, .hFloat],
  listed 0xfd75 "polyh" [.hFloat, .word, .byte],
  listed 0xfd76 "cvthg" [.hFloat, .gFloat],
  listed 0xfd7c "clrh" [.hFloat],
  listed 0xfd7d "movo" [.octa, .octa],
  listed 0xfd7e "movah" [.hFloat, .long],
  listed 0xfd7f "pushah" [.hFloat],
  listed 0xfd98 "cvtfh" [.fFloat, .hFloat],
  listed 0xfd99 "cvtfg" [.fFloat, .gFloat],
  listed 0xfdf6 "cvthf" [.hFloat, .fFloat],
  listed 0xfdf7 "cvthd" [.hFloat, .dFloat],
  listed 0xfffd "bugl" [.long],
  listed 0xfffe "bugw" [.word]
]

/-- The instruction with a one- or two-byte code. -/
def find? (code : UInt16) : Option Descriptor :=
  descriptors.find? fun d => d.code == code

theorem mem_of_find? {code : UInt16} {d : Descriptor} (h : find? code = some d) :
    d ∈ descriptors :=
  List.mem_of_find?_eq_some h

theorem code_of_find? {code : UInt16} {d : Descriptor} (h : find? code = some d) :
    d.code = code := by
  simpa using List.find?_some h

end Catalog

end Vax
