import JexlScript.Text.CodePoints

/-!
# Classes of characters

A name starts with a letter, a letter-like number or an underscore, and goes on with those,
digits, combining marks and connecting punctuation. Controls, format characters, unassigned
and private code points, and every space or line end other than the plain space are not
printable.
-/

namespace JexlScript.Text

/-- The classes of all characters above the ASCII graphic ones, as runs: `s` for those that
may start a name, `m` for the others that may continue one, `u` for what is not printable
and `p` for the rest. -/
def classRuns : List (Char × Nat) := runsOf [
  "u21p8sp1up6spmp1sp4s16ps1eps1c9p3sbpds4p6spsp10m6fs4ps1u1ps2psu3p1sms2usus13us52ps8apm4p1sa5u",
  "s25u1sp5s28p1u1p2um2cpmpm1pm1pmu7s1au3s3p1u10p9mapup2s2am1ep3s1ms62psm6upm5s1m1pm3s1m9s2p1spd",
  "u1sms1dm1au1s58masudm9s20m8s1p3su1mp1s15m3sm8sm2sm4u1peus18m2u1pusau4s17ps5u8m7s29m17um20s35",
  "m2sm11sm6s9m1p1m9psfm2us7u1s1u1s15us6usu2s3u1msm6u1m1u1m2su7mu3s1us2m1u1m9s1p9spmu1m2us5u3s1",
  "u1s15us6us1us1us1u1mum4u3m1u1m2u2mu6s3usu6mbs2mpu9m2us8us2us15us6us1us4u1msm7um2um2u1sues1m1",
  "u1m9p1u6sm5um2us7u1s1u1s15us6us1us4u1msm6u1m1u1m2u6m2u3s1us2m1u1m9psp5u9msus5u2s2us3u2s1usus1",
  "u2s1u2s2u2sbu3m4u2m2um3u1su5mudm9pau4m4s7us2us16usfu1msm6um2um3u6m1us2u1su1s1m1u1m9u6p8sm2ps7",
  "us2us16us9us4u1msm6um2um3u6m1u5s1us1m1u1m9us1mubm3s8us2us28m1sm6um2um3spu3s2mp6s2m1u1m9p9s5u",
  "m2us11u2s17us8usu1s6u2mu3m5umum7u5m9u1m1pubs2fmsm7u3ps6m7pm9p1u24s1usus4us17usus9msm9su1s4usu",
  "m6um9u1s3u1fsp16m1p5m9pampmpmp3m1s7us23u3m13pm1s4maum23up7mp5upcu24s2am13sm9p5s5m3s3m2sm2s1m6",
  "s2m3scmbsmep1s25usu4su1s2aps14cus3u1s6usus3u1s28us3u1s20us3u1s6usus3u1seus38us3u1s42u1m2p8m8",
  "pau2sfp9u5s55u1s5u1ps26bp1s10us19p1u2s4ap2sau6s11m3u8s12m2p1u8s11m1ubscus2um1ubs33m1fp2sp3sm",
  "u1m9u5p9u5pam2umau5s58u6s28msu4s45u9s1eumbu3mbu3pu2p1m9s1du1s4uas2bu3s19u5mau2p21s16m4u1p1s34",
  "m9um1cu1mau5m9u5p6sp5u1mdpmfu30m4s2em10s7u2m9p10m8paum2s1dmcs1m9s2bmdu7p3s23m13u2p4m9u2s2m9",
  "s23p1s8u6s2au1s2p7u7m2pm14s3ms5ms1m2su4sbfm3fs115u1s5u1s25u1s5u1s7usususus1eu1s34us6psp2s2us6",
  "p2s3u1s5up2scp2u1s2us6p1u10p17u7pem1p12mp9u10psu1paspeuscu2p20uemcp3mp2mbuep1sp3sp1s9psp1s5p5",
  "spspspsfp1s3p4s4p3sp10s28p2u3p296u18pau14p713u1p1fup68se4p5s3m2s1u4p6s25usu4su1s37u6spudms16",
  "u8s6us6us6us6us6us6us6us6um1fp5du21p19up58ubpd5u19pbu4p3s2p18s8m5ps4p1s4p2us55u1m1p1s2ps59ps3",
  "u4s2aus5dupfs1fp23ubsfp1eup1dfs19bfp3fs568cu2p36u8s2dp1s10cp2sfm9s1u13s2emp3m9ps1em1s4fm1p5u7",
  "p16s8p1s66p1s3fu4s1usus4u17sfms2ms3ms16m4p3mu2p9u5s33p3u7m1s31m11u7p1m9u5m11s5p2sps1mas1bm7p1",
  "s16mcuaps1cu2m3s2emdpcusm9u3p1s4ms9m9s4us28mdu8s2ms7m1u1m9u1p3s16p2sm2s31msm2s1m1s4m1smsu17s2",
  "p1sam4p1s2m1u9s5u1s5u1s5u8s6us6us2apsdp1u3s72m7pm1u1m9u5s2ba3ubs16u3s30u2103s16du1s69u25s6ub",
  "s4u4sms9pscus4usus1us1us6bp10ufs8ap5sd9p11s3fu1s35u6pu1fs9p5mfp9u5mfp2m1p17m2p2up12up3u3pspsp",
  "upspspspsps7du3pem9p6s19p3mps19pas37m1s1eu2s5u1s5u1s5u1s2u2p6up6ucp1u1sbus19us12us1useu1sdu21",
  "s7au4p2u3p2cu2p8s34p19upcu2pu2ep2cmu81s1cu2s30uemp1au3s1fp3u8s1du4s25m4u4s1dups23u3s7ps4u29",
  "s9du1m9u5s23u3s23u3s27u7s33uapsauseus6us1usauseus6us1u42s136u8s15u9s7u17s5us29us8u44s5u1sus2b",
  "us1u2su1s16up8s16p8s1eu7p8u2fs12us1u4p4s15p5u2ps19u4pu3fs37u3p1s1pfu1p2dsm2um1u4m3s3us2us1cu1",
  "m2u3mp8u6p8u6s1cp2s1cp2u1fs7ps1bm1u3pbu8s35u2p6s15u1p7s12u4p7s11u6p3ubp6u4fs48u36s32ucs32u6p5",
  "s23m3u7m9u125p1eus29um1pu1s1u4am2s1cp9su7s15map8u15s11m3p3u25s14p6u13s16u8m2s34mep6u3p13mas1",
  "m1su8m3s2cmap1up3mucs18u6m9u5m2s23mdum9p3sm1su7s22mp1su8m2s2fmds3p3m3pmbspsp2up13uas11us18mb",
  "p5ms1mu3ds6usus3useus9pu5s2embu4m9u5m3us7u1s1u1s15us6us1us4um1sm6u1m1u1m2u1su5mu4s4m1u1m6u2m4",
  "u8as34m11s3p4m9p1upms2u1ds2fm13s1psu7m9ua5s2em6u1m8p16s3m1u21s2fm10p2suam9u5pcu12s2amcspu5m9",
  "u35s1au1meu3m9p5s6ub8s2bmepu63s3fm9p8ubs7u1su1s7us1us17m5um1u1m3smsm1p2u8m9u45s7u1s26m6u1m6sp",
  "smu1asm9s27m6sm3p7mu7smas2dmfp2sp4ucs48u6p9uf5s8us24m7um7sp4u9m9p12u2p1s1du1m15umdu48s6us1u",
  "s25m5u2mum1um6smu7m9u5s5us1us1fm4um1um4su6m9u135s12m3p1u6m1smscus21m6u2m4pcm9u55suep31ucps399",
  "u65s6eup4uasc3ua4bs60p1ucs42fufms5meufa9s246u21b8s238u6s1eum9u3p1s4eum9u5s1du1m4pu9s2fm6p8s3",
  "p1u9m9up6us14u4s12u2afs3fp1au64s4au3msm36u6m3scu3fs1psmuam1uds17f7u7s4d5u29s8u22e6s3us6us1u",
  "s122uesu1cs2u1suds3u7s18bu903s6au4scu2s8u6s9u1pm1pu125fm2du1m16u8p73u3bpf5u9p26u1p3bm4p2m5u7",
  "m7p1m6p1dm3p3cu14p41m2pu79p13ubp13ubp56u8p18u86s54us46us1u1su1s1u1s3usbusus6us40us3u1s7us6u",
  "s1bus3us4usu2s6us153u1s18ps18ps1eps18ps1eps18ps1eps18ps1eps18ps7u1m31p1ffm36p3m31p7mpdmp6uem4",
  "umeu44fs1eu5s5ud4m6um10u1m6um1um4u4s3du20mu6fs2cu2m6s6u1m9u3spu13fs1dmu10s2bmdu4pu1cfs1bmd",
  "u2e5s6us3us1useusc4u1p8m6u28s43m6su3m9u3p1u310p43u4bp3cuc1s3us1aus1usu1sus9us3ususu5su3sususu",
  "s2us1usu1sususususus1usu1s3us6us3us3usus9us10u4s2us4us10u33p1u10dp2bu3p63ubpeu1peupeup24u9pad",
  "u37p1cucp2bu3p8u6p1udp5u99p3d7u3p10u2pcu2p76u3p5eu5pbu3puepbu3p37u7p9u5p27u7p1du1p1u4dp153ub",
  "pdu1pcu2p8u6p2dup6u7pdu3p8u6p8u6p92up36u24m9u405sa6dfu1fs1039u5sddu1s1681uds1d30uc1es21du5e1",
  "s134au4s105fuadd4fmefu2fe0f"]

def nameStarts : CodePoints := .ofRuns 's' 127 classRuns

def nameMarks : CodePoints := .ofRuns 'm' 127 classRuns

def unprintable : CodePoints := .ofRuns 'u' 127 classRuns

def isNameStart (c : Char) : Bool :=
  if c.toNat < 128 then c.isAlpha || c == '_' else nameStarts.contains c

def isNamePart (c : Char) : Bool :=
  if c.toNat < 128 then c.isAlphanum || c == '_'
  else nameStarts.contains c || nameMarks.contains c

def isPrintable (c : Char) : Bool :=
  if c.toNat < 127 then 32 ≤ c.toNat else !unprintable.contains c

end JexlScript.Text
