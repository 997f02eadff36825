import BotBrew.Words.Strings

/-! `android_filesystem_config.h`: owners and modes by path. -/

set_option autoImplicit false

namespace BotBrew.Archive

open Words

def AID_ROOT : Nat := 0
def AID_SYSTEM : Nat := 1000
def AID_RADIO : Nat := 1001
def AID_BLUETOOTH : Nat := 1002
def AID_AUDIO : Nat := 1005
def AID_DHCP : Nat := 1014
def AID_MEDIA_RW : Nat := 1023
def AID_SHELL : Nat := 2000
def AID_CACHE : Nat := 2001
def AID_NET_BT : Nat := 3002
def AID_INET : Nat := 3003
def AID_NET_RAW : Nat := 3004
def AID_MISC : Nat := 9998
def AID_APP : Nat := 10000

structure fs_path_config where
  mode : Word
  uid : Nat
  gid : Nat
  path : List Byte

def rule (mode : Word) (uid gid : Nat) (path : String) : fs_path_config := ⟨mode, uid, gid, ascii path⟩

/-- The directories with a prefix of their own -/
def android_dirs : List fs_path_config :=
  [rule 0o0770 AID_SYSTEM AID_CACHE "cache",
    rule 0o0771 AID_SYSTEM AID_SYSTEM "data/app",
    rule 0o0771 AID_SYSTEM AID_SYSTEM "data/app-private",
    rule 0o0771 AID_SYSTEM AID_SYSTEM "data/dalvik-cache",
    rule 0o0771 AID_SYSTEM AID_SYSTEM "data/data",
    rule 0o0771 AID_SHELL AID_SHELL "data/local/tmp",
    rule 0o0771 AID_SHELL AID_SHELL "data/local",
    rule 0o1771 AID_SYSTEM AID_MISC "data/misc",
    rule 0o0770 AID_DHCP AID_DHCP "data/misc/dhcp",
    rule 0o0775 AID_MEDIA_RW AID_MEDIA_RW "data/media",
    rule 0o0775 AID_MEDIA_RW AID_MEDIA_RW "data/media/Music",
    rule 0o0771 AID_SYSTEM AID_SYSTEM "data",
    rule 0o0750 AID_ROOT AID_SHELL "sbin",
    rule 0o0755 AID_ROOT AID_SHELL "system/bin",
    rule 0o0755 AID_ROOT AID_SHELL "system/vendor",
    rule 0o0755 AID_ROOT AID_SHELL "system/xbin",
    rule 0o0755 AID_ROOT AID_ROOT "system/etc/ppp",
    rule 0o0777 AID_ROOT AID_ROOT "sdcard"]

/-- The files with a path or a pattern of their own -/
def android_files : List fs_path_config :=
  [rule 0o0440 AID_ROOT AID_SHELL "system/etc/init.goldfish.rc",
    rule 0o0550 AID_ROOT AID_SHELL "system/etc/init.goldfish.sh",
    rule 0o0440 AID_ROOT AID_SHELL "system/etc/init.trout.rc",
    rule 0o0550 AID_ROOT AID_SHELL "system/etc/init.ril",
    rule 0o0550 AID_ROOT AID_SHELL "system/etc/init.testmenu",
    rule 0o0550 AID_DHCP AID_SHELL "system/etc/dhcpcd/dhcpcd-run-hooks",
    rule 0o0440 AID_BLUETOOTH AID_BLUETOOTH "system/etc/dbus.conf",
    rule 0o0440 AID_BLUETOOTH AID_BLUETOOTH "system/etc/bluetooth/main.conf",
    rule 0o0440 AID_BLUETOOTH AID_BLUETOOTH "system/etc/bluetooth/input.conf",
    rule 0o0440 AID_BLUETOOTH AID_BLUETOOTH "system/etc/bluetooth/audio.conf",
    rule 0o0440 AID_BLUETOOTH AID_BLUETOOTH "system/etc/bluetooth/network.conf",
    rule 0o0444 AID_NET_BT AID_NET_BT "system/etc/bluetooth/blacklist.conf",
    rule 0o0640 AID_SYSTEM AID_SYSTEM "system/etc/bluetooth/auto_pairing.conf",
    rule 0o0444 AID_RADIO AID_AUDIO "system/etc/AudioPara4.csv",
    rule 0o0555 AID_ROOT AID_ROOT "system/etc/ppp/*",
    rule 0o0555 AID_ROOT AID_ROOT "system/etc/rc.*",
    rule 0o0644 AID_SYSTEM AID_SYSTEM "data/app/*",
    rule 0o0644 AID_MEDIA_RW AID_MEDIA_RW "data/media/*",
    rule 0o0644 AID_SYSTEM AID_SYSTEM "data/app-private/*",
    rule 0o0644 AID_APP AID_APP "data/data/*",
    rule 0o2755 AID_ROOT AID_NET_RAW "system/bin/ping",
    rule 0o2750 AID_ROOT AID_INET "system/bin/netcfg",
    rule 0o6755 AID_ROOT AID_ROOT "system/xbin/su",
    rule 0o6755 AID_ROOT AID_ROOT "system/xbin/librank",
    rule 0o6755 AID_ROOT AID_ROOT "system/xbin/procrank",
    rule 0o6755 AID_ROOT AID_ROOT "system/xbin/procmem",
    rule 0o6755 AID_ROOT AID_ROOT "system/xbin/tcpdump",
    rule 0o4770 AID_ROOT AID_RADIO "system/bin/pppd-ril",
    rule 0o6750 AID_ROOT AID_SHELL "system/bin/run-as",
    rule 0o6750 AID_ROOT AID_SYSTEM "system/bin/rebootcmd",
    rule 0o0755 AID_ROOT AID_SHELL "system/bin/*",
    rule 0o0755 AID_ROOT AID_ROOT "system/lib/valgrind/*",
    rule 0o0755 AID_ROOT AID_SHELL "system/xbin/*",
    rule 0o0755 AID_ROOT AID_SHELL "system/vendor/bin/*",
    rule 0o0750 AID_ROOT AID_SHELL "sbin/*",
    rule 0o0755 AID_ROOT AID_ROOT "bin/*",
    rule 0o0750 AID_ROOT AID_SHELL "init*",
    rule 0o0750 AID_ROOT AID_SHELL "charger*",
    rule 0o0755 AID_ROOT AID_SHELL "system/etc/init.d/*"]

/-- The rule at the end of each table -/
def fallback (dir : Bool) : fs_path_config := ⟨if dir then 0o0755 else 0o0644, AID_ROOT, AID_ROOT, []⟩

def star : Byte := 42

/-- Whether the loop stops at a rule. A prefix of a directory may end inside of a name. -/
def fs_path_config.stops (pc : fs_path_config) (path : List Byte) (dir : Bool) : Bool :=
  if dir then pc.path.isPrefixOf path
  else if pc.path.getLast? = some star then pc.path.dropLast.isPrefixOf path
  else pc.path == path

/-- The rule for a path: the first one that stops the loop -/
def config (path : List Byte) (dir : Bool) : fs_path_config :=
  ((if dir then android_dirs else android_files).find? fun pc => pc.stops path dir).getD (fallback dir)

/-- Owner, group and mode -/
def fs_config (path : List Byte) (dir : Bool) (mode : Word) : Nat × Nat × Word :=
  let pc := config path dir
  (pc.uid, pc.gid, (mode &&& ~~~0o7777) ||| pc.mode)

end BotBrew.Archive
